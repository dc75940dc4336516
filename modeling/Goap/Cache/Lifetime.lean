import Goap.Cache.PlanCache
import Goap.Search.Soundness

namespace Goap

open FloatOps Foundation

variable {F : Type} [FloatOps F]

/-- What the owner of a planner, or the pool that recycles it, may call. -/
inductive PlannerCall (F : Type) [FloatOps F] where
  | planningMethod (method : PlanningMethod)
  | planningActions (planningActions : List (PlanningAction F))
  | clear
  | makePlanCached (initialState : State F) (meter : PlanningStateMeter F) (pStates : Option (List (State F)))
      (fuel : Nat)
  | cacheStates (states : List (State F)) (plan : List (PlanningAction F))
  | findPlan (intialState goalState : State F)

inductive PlannerReply (F : Type) [FloatOps F] where
  | done
  | planned (actions : List (PlanningAction F))
  | thrown (e : Exn)

/-- How a defined end of `makePlanCached` looks to the caller. -/
def CachedOutcome.reply : CachedOutcome F → Option (PlannerReply F)
  | returned actionsArray _ => some (.planned actionsArray)
  | thrown e => some (.thrown e)
  | undefined => none
  | unfinished => none

def StatesCaches.actions (statesCaches : StatesCaches F) : List (PlanningAction F) :=
  statesCaches.flatMap fun entry => entry.2.flatMap StatesPlan.plan

theorem StatesCaches.mem_actions {statesCaches : StatesCaches F} {action : PlanningAction F} :
    action ∈ statesCaches.actions ↔ ∃ entry ∈ statesCaches, ∃ statesPlan ∈ entry.2, action ∈ statesPlan.plan := by
  simp only [StatesCaches.actions, List.mem_flatMap]

theorem StatesCaches.actions_insert {statesCaches : StatesCaches F} {key : CacheKey F}
    {plannings : List (StatesPlan F)} {action : PlanningAction F}
    (member : action ∈ StatesCaches.actions (HashedList.insert CacheKey.fits key plannings statesCaches)) :
    action ∈ statesCaches.actions ∨ ∃ statesPlan ∈ plannings, action ∈ statesPlan.plan := by
  obtain ⟨entry, stored, statesPlan, present, inside⟩ := mem_actions.mp member
  rcases HashedList.mem_insert stored with old | ⟨own, _⟩
  · exact .inl (mem_actions.mpr ⟨entry, old, statesPlan, present, inside⟩)
  · exact .inr ⟨statesPlan, own ▸ present, inside⟩

/-- Looking a goal up shows plans of the cache and adds no action to it. -/
theorem StatesCaches.actions_subscript (statesCaches : StatesCaches F) (goalState : State F) :
    (∀ statesPlan ∈ (statesCaches.subscript goalState).1, ∀ action ∈ statesPlan.plan,
        action ∈ statesCaches.actions) ∧
      ∀ action ∈ StatesCaches.actions (statesCaches.subscript goalState).2, action ∈ statesCaches.actions := by
  unfold StatesCaches.subscript
  cases selected : HashedList.lookup CacheKey.fits (.of goalState) statesCaches with
  | some plannings =>
    obtain ⟨key, present, _⟩ := HashedList.lookup_mem selected
    refine ⟨?_, fun _ member => member⟩
    intro statesPlan member action inside
    exact mem_actions.mpr ⟨(key, plannings), present, statesPlan, member, inside⟩
  | none =>
    constructor
    · intro statesPlan member
      cases member
    · intro action member
      rcases actions_insert member with old | ⟨_, absent, _⟩
      · exact old
      · cases absent

namespace CachingPlanner

/-- One call; `none` when it has no defined end. -/
def call (planner : CachingPlanner F) : PlannerCall F → Option (PlannerReply F × CachingPlanner F)
  | .planningMethod planningMethod => some (.done, { planner with planningMethod })
  | .planningActions planningActions => some (.done, { planner with planningActions })
  | .clear => some (.done, planner.clear)
  | .makePlanCached initialState meter pStates fuel =>
    let (outcome, planner) := planner.makePlanCached initialState meter [] pStates fuel
    outcome.reply.map fun reply => (reply, planner)
  | .cacheStates states plan => (planner.cacheStates states plan).map fun planner => (.done, planner)
  | .findPlan intialState goalState =>
    let (actions, planner) := planner.findPlan intialState goalState []
    some (.planned actions, planner)

/-- The planners that calls lead to, each call allowed where it is made. -/
inductive Lifetime (allowed : CachingPlanner F → PlannerCall F → Prop) : CachingPlanner F → Prop where
  | new : Lifetime allowed .new
  | call (before : Lifetime allowed planner) (meets : allowed planner request)
      (ran : planner.call request = some (reply, planner')) : Lifetime allowed planner'

/-- Every action of a cached plan is an action of the planner. -/
def Ruled (planner : CachingPlanner F) : Prop :=
  ∀ action ∈ planner.statesCaches.actions, action ∈ planner.planningActions

/-- No call leaves a plan in the cache with an action that the planner has not. -/
def KeepsRules (planner : CachingPlanner F) : PlannerCall F → Prop
  | .planningActions planningActions => ∀ action ∈ planner.statesCaches.actions, action ∈ planningActions
  | .clear => planner.statesCaches.actions = []
  | .cacheStates _ plan => ∀ action ∈ plan, action ∈ planner.planningActions
  | _ => True

variable {planner planner' : CachingPlanner F} {initialState goalState : State F}
  {meter : PlanningStateMeter F} {request : PlannerCall F} {reply : PlannerReply F}

theorem mem_findPlan {action : PlanningAction F} (member : action ∈ (planner.findPlan initialState goalState []).1) :
    action ∈ planner.statesCaches.actions := by
  unfold findPlan at member
  dsimp only at member
  rcases Nearest.scanPlannings_cases initialState (planner.statesCaches.subscript goalState).1 .new with
    nothing | ⟨statePlan, present, nearOffset, found⟩
  · rw [nothing] at member
    cases member
  · unfold Nearest.retPlan at member
    rw [found] at member
    dsimp only at member
    split at member
    · rw [List.nil_append] at member
      have inside := List.mem_of_mem_drop member
      exact (planner.statesCaches.actions_subscript goalState).1 statePlan present action inside
    · cases member

/-- What planning leaves behind: the rules as they are, a cache in line with them
and no foreign action returned. -/
structure Obeys (planner planner' : CachingPlanner F) (actions : List (PlanningAction F)) : Prop where
  ruled : Ruled planner'
  rules : planner'.toPlanner = planner.toPlanner
  known : ∀ action ∈ actions, action ∈ planner.planningActions

theorem Ruled.findPlan (ruled : Ruled planner) (initialState goalState : State F) :
    Obeys planner (planner.findPlan initialState goalState []).2 (planner.findPlan initialState goalState []).1 where
  ruled action member := ruled action ((planner.statesCaches.actions_subscript goalState).2 action member)
  rules := rfl
  known action member := ruled action (mem_findPlan member)

theorem Ruled.cacheStates (ruled : Ruled planner) {states : List (State F)} {plan : List (PlanningAction F)}
    (known : ∀ action ∈ plan, action ∈ planner.planningActions)
    (stored : planner.cacheStates states plan = some planner') : Obeys planner planner' plan := by
  unfold CachingPlanner.cacheStates at stored
  split at stored
  · cases stored
  · rename_i goalState _
    cases stored
    refine ⟨?_, rfl, known⟩
    intro action member
    obtain ⟨shown, kept⟩ := planner.statesCaches.actions_subscript goalState
    rcases StatesCaches.actions_insert member with old | ⟨statesPlan, present, inside⟩
    · exact ruled action (kept action old)
    · rcases List.mem_append.mp present with previous | own
      · exact ruled action (shown statesPlan previous action inside)
      · rw [List.mem_singleton.mp own] at inside
        exact known action inside

theorem Ruled.makePlanCached (ruled : Ruled planner) {outcome : CachedOutcome F}
    {pStates : Option (List (State F))} {fuel : Nat}
    (ended : CachedCall planner initialState meter [] pStates fuel outcome planner') :
    Obeys planner planner' outcome.actions := by
  have looked := ruled.findPlan initialState meter.goalState
  cases ended with
  | hit found planned => rwa [found] at looked
  | unfinished missed => rwa [missed] at looked
  | thrown missed => rwa [missed] at looked
  | noPlan missed => rwa [missed] at looked
  | undefined missed => rwa [missed] at looked
  | @made found _ result missed ran planned stored =>
    rw [missed] at looked
    have known : ∀ action ∈ result.actionsArray, action ∈ planner.planningActions := by
      rcases Planner.makePlan_cases ran with ⟨_, nothing⟩ | ⟨_, _, _, known, _⟩
      · exact absurd nothing planned
      · exact known
    unfold cachePlan at stored
    split at stored
    · cases stored
    · have same : found.planningActions = planner.planningActions := congrArg Planner.planningActions looked.rules
      have kept := looked.ruled.cacheStates (same ▸ known) stored
      exact ⟨kept.ruled, kept.rules.trans looked.rules, known⟩

theorem Ruled.callPlanned (ruled : Ruled planner) {pStates : Option (List (State F))} {fuel : Nat}
    (ran : planner.call (.makePlanCached initialState meter pStates fuel) = some (reply, planner')) :
    ∃ outcome : CachedOutcome F, outcome.reply = some reply ∧ Obeys planner planner' outcome.actions := by
  obtain ⟨_, same, ended⟩ := Option.map_eq_some_iff.mp ran
  cases ended
  exact ⟨_, same, ruled.makePlanCached (makePlanCached_cases planner initialState meter [] pStates fuel)⟩

/-- A call that keeps the rules leaves a planner whose cache follows them. -/
theorem Ruled.call (ruled : Ruled planner) (keeps : KeepsRules planner request)
    (ran : planner.call request = some (reply, planner')) : Ruled planner' := by
  cases request with
  | planningMethod method =>
    cases ran
    exact ruled
  | planningActions actions =>
    cases ran
    exact keeps
  | clear =>
    cases ran
    intro action member
    have nothing : planner.clear.statesCaches.actions = [] := keeps
    rw [nothing] at member
    cases member
  | makePlanCached initialState meter pStates fuel =>
    obtain ⟨_, _, obeys⟩ := ruled.callPlanned ran
    exact obeys.ruled
  | cacheStates states plan =>
    obtain ⟨_, stored, same⟩ := Option.map_eq_some_iff.mp ran
    cases same
    exact (ruled.cacheStates keeps stored).ruled
  | findPlan intialState goalState =>
    cases ran
    exact (ruled.findPlan intialState goalState).ruled

theorem Lifetime.ruled (lifetime : Lifetime KeepsRules planner) : Ruled planner := by
  induction lifetime with
  | new =>
    intro action member
    cases member
  | call _ keeps ran ih => exact ih.call keeps ran

/-- In a lifetime of calls that keep the rules, `makePlanCached` returns actions of
the planner only. -/
theorem makePlanCached_known (planner : CachingPlanner F) (lifetime : Lifetime KeepsRules planner)
    (initialState : State F) (meter : PlanningStateMeter F) (pStates : Option (List (State F))) (fuel : Nat)
    (actions : List (PlanningAction F)) (planner' : CachingPlanner F)
    (ran : planner.call (.makePlanCached initialState meter pStates fuel) = some (.planned actions, planner')) :
    ∀ action ∈ actions, action ∈ planner.planningActions := by
  obtain ⟨outcome, same, obeys⟩ := lifetime.ruled.callPlanned ran
  cases outcome with
  | returned actionsArray given =>
    cases same
    exact obeys.known
  | thrown e => cases same
  | undefined => cases same
  | unfinished => cases same

def AnyCall (_ : CachingPlanner F) (_ : PlannerCall F) : Prop := True

/-- Calls one after another, whatever they reply. -/
def calls (planner : CachingPlanner F) : List (PlannerCall F) → Option (CachingPlanner F)
  | [] => some planner
  | request :: requests =>
    match planner.call request with
    | none => none
    | some (_, planner) => calls planner requests

theorem Lifetime.calls {requests : List (PlannerCall F)} (lifetime : Lifetime AnyCall planner)
    (ran : planner.calls requests = some planner') : Lifetime AnyCall planner' := by
  induction requests generalizing planner with
  | nil =>
    cases ran
    exact lifetime
  | cons request requests ih =>
    unfold CachingPlanner.calls at ran
    split at ran
    · cases ran
    · rename_i replied
      exact ih (lifetime.call trivial replied) ran

def plannedActions : Option (PlannerReply F × CachingPlanner F) → Option (List (PlanningAction F))
  | some (.planned actions, _) => some actions
  | _ => none

theorem plannedActions_eq_some {outcome : Option (PlannerReply F × CachingPlanner F)}
    {actions : List (PlanningAction F)} (planned : plannedActions outcome = some actions) :
    ∃ planner, outcome = some (.planned actions, planner) := by
  unfold plannedActions at planned
  split at planned
  · cases planned
    exact ⟨_, rfl⟩
  · cases planned

def place (x : ℚ) : State Float32 := State.new.put (.ofString "x") (.scalar (lit x))

/-- Leads from place 1 to place 2, at a cost. -/
def walk (cost : ℚ) : PlanningAction Float32 where
  name := "walk"
  validator state :=
    let here := (state.find? (.ofString "x")).any (StateValue.equals (.scalar (lit 1)))
    .ok (if here then lit 1 else lit 0)
  executor state := .ok ((state.put (.ofString "x") (.scalar (lit 2))).setCost (lit cost))

def walks (cost : ℚ) : List (PlannerCall Float32) :=
  [.planningActions [walk cost], .makePlanCached (place 1) (comparerStateMeter (place 2)) none 10]

def walker (cost : ℚ) : CachingPlanner Float32 := ⟨⟨.BreadthFirst, [walk cost], none⟩, []⟩

theorem makePlanCached_known_walker : ∃ actions planner',
    (walker 1).call (.makePlanCached (place 1) (comparerStateMeter (place 2)) none 10) =
      some (.planned actions, planner') ∧
    ∀ action ∈ actions, action ∈ (walker 1).planningActions := by
  have answers : ((plannedActions ((walker 1).call (.makePlanCached (place 1) (comparerStateMeter (place 2)) none
      10))).map List.length) = some 1 := by decide +kernel
  obtain ⟨actions, planned, _⟩ := Option.map_eq_some_iff.mp answers
  obtain ⟨planner', ran⟩ := plannedActions_eq_some planned
  have keeps : KeepsRules new (.planningActions [walk 1]) := by
    intro action absent
    cases absent
  have lifetime : Lifetime KeepsRules (walker 1) := .call .new keeps rfl
  exact ⟨actions, planner', ran, makePlanCached_known _ lifetime _ _ none 10 actions planner' ran⟩

/-- A planner that is cleared, as when the pool recycles it, still answers with the
plan of its former actions. -/
theorem makePlanCached_known_fails : ¬ ∀ planner : CachingPlanner Float32, Lifetime AnyCall planner →
    ∀ initialState meter pStates fuel actions planner',
      planner.call (.makePlanCached initialState meter pStates fuel) = some (.planned actions, planner') →
      ∀ action ∈ actions, action ∈ planner.planningActions := by
  intro known
  have answers : ((new.calls (walks 1 ++ [.clear])).map fun planner => (planner.planningActions.length,
      (plannedActions (planner.call (.makePlanCached (place 1) (comparerStateMeter (place 2)) none 10))).map
        List.length)) = some (0, some 1) := by decide +kernel
  obtain ⟨planner, ran, answer⟩ := Option.map_eq_some_iff.mp answers
  obtain ⟨nothing, one⟩ := Prod.mk.inj answer
  obtain ⟨actions, planned, count⟩ := Option.map_eq_some_iff.mp one
  obtain ⟨planner', replied⟩ := plannedActions_eq_some planned
  have foreign := known planner (Lifetime.calls .new ran) _ _ _ _ actions planner' replied
  rw [List.eq_nil_of_length_eq_zero nothing] at foreign
  cases actions with
  | nil => cases count
  | cons action rest => cases foreign action (by simp)

end CachingPlanner

end Goap
