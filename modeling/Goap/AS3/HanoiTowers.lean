import Goap.AS3.NumericStateComparer
import Goap.AS3.MakePlan
import Goap.Foundation.TowersOfHanoi

/-! The solver of the towers of Hanoi: towers as values of a state, under names such as A1
for the uppermost place of the first one. Its actions move discs as the rules allow. -/

namespace Goap.AS3

open NumberOps Foundation

variable {N Other : Type} [ToString Other]

namespace State

/-- The getter `length`, which counts what is not null. -/
def length (this : State Other) : ℕ := (this.map.keys.filter fun key => (this.at? key).isSome).length

theorem length_congr {this other : State Other} (same : this.at? = other.at?) : this.length = other.length := by
  refine List.Perm.length_eq ((List.perm_ext_iff_of_nodup ?_ ?_).mpr ?_)
  · exact this.map.nodupKeys.filter _
  · exact other.map.nodupKeys.filter _
  · have present (state : State Other) (key : String) :
        key ∈ state.map.keys.filter (fun key => (state.at? key).isSome) ↔ (state.at? key).isSome := by
      rw [List.mem_filter]
      refine and_iff_right_of_imp fun found => ?_
      by_contra absent
      rw [at?, Object.at?_of_notMem absent] at found
      cases found
    intro key
    rw [present, present, same]

end State

section

variable [NumberOps N] [Coercions N Other]

namespace ExactStateComparer

/-- The variables of the loop in `distance`. -/
structure Tally (N : Type) where
  percent : N
  s2Count : ℕ
  sameKeyCount : ℕ

def distanceStep (s1 s2 : State Other) (tally : Tally N) (key : String) : Tally N :=
  match s1.at? key with
  | none => { tally with s2Count := tally.s2Count + 1 }
  | some value1 =>
    { percent := if Coercions.looseEq N (s2.at? key) (some value1) then tally.percent else tally.percent + number 1
      s2Count := tally.s2Count + 1
      sameKeyCount := tally.sameKeyCount + 1 }

def distance (s1 s2 : State Other) : N :=
  let tally := s2.map.keys.foldl (distanceStep s1 s2) ⟨number 0, 0, 0⟩
  let countDifferent : N := number (tally.s2Count + s1.length - tally.sameKeyCount - tally.sameKeyCount)
  (tally.percent + countDifferent) / (number tally.sameKeyCount + countDifferent)

theorem distance_congr {s1 s1' : State Other} (same : s1.at? = s1'.at?) (s2 : State Other) :
    distance s1 s2 = (distance s1' s2 : N) := by
  have steps : distanceStep (N := N) s1 s2 = distanceStep s1' s2 := by
    funext tally key
    rw [distanceStep, distanceStep, same]
  simp only [distance, steps, State.length_congr same]

end ExactStateComparer

end

namespace HanoiTowers

/-- `concatStringInt`, without its cache. -/
def concatStringInt (str : String) (n : ℕ) : String := str ++ toString n

/-- The loops that look for the uppermost place of a tower that is taken, and break there. -/
def firstTaken (state : State Other) (tower : String) (n : ℕ) : Option ℕ :=
  ((List.range n).map (· + 1)).find? fun i => (state.at? (concatStringInt tower i)).isSome

/-- `val` after such a loop. -/
def top (state : State Other) (tower : String) (n : ℕ) : Option (Value Other) :=
  (firstTaken state tower n).bind fun i => state.at? (concatStringInt tower i)

/-- Whether a disc may go from one tower to another. -/
def validate (state : State Other) (source dest : String) (n : ℕ) : Bool :=
  match top state source n with
  | some (.int onFromTop) =>
    match top state dest n with
    | some (.int onToTop) => onFromTop < onToTop
    | _ => true
  | _ => false

def move (state : State Other) (source dest : String) (n : ℕ) : Except Error (State Other) :=
  match firstTaken state source n with
  | none => .error ("Can't trig from '" ++ source ++ "' to '" ++ dest ++ "'")
  | some i =>
    let a := concatStringInt source i
    let put (b : String) : State Other := (state.put b (state.at? a)).remove a
    match firstTaken state dest n with
    | some i => if i = 1 then .error ("Can't put to '" ++ dest ++ "'") else .ok (put (concatStringInt dest (i - 1)))
    | none => .ok (put (concatStringInt dest n))

def moveAction (source dest : String) (n : ℕ) : ActionRef N Other := some
  { name := "Move from " ++ source ++ " to " ++ dest
    validator := fun state => .ok (validate state.toState source dest n)
    executor := fun state => (move state.toState source dest n).map fun moved => ⟨moved, state.cost⟩ }

/-- The planner of `tower_plan`. -/
def planner (N Other : Type) [ToString Other] (n : ℕ) : Planner N Other where
  _planningMethod := .BreadthFirst
  _planningActions :=
    [moveAction "A" "B" n, moveAction "A" "C" n, moveAction "B" "A" n, moveAction "B" "C" n, moveAction "C" "A" n,
      moveAction "C" "B" n]

section

variable [NumberOps N] [Coercions N Other]

/-- `fnDistance`: as long as the largest disc is on the first tower, any state far from the
initial one is near the goal. -/
def fnDistance (n : ℕ) (initialState goalState state : State Other) : N :=
  let ret := ExactStateComparer.distance state goalState
  if Coercions.looseEq N (state.at? (concatStringInt "A" n)) (some (.int (Int32.ofNat n))) then
    let distance := number 1 - ExactStateComparer.distance state initialState / (number (2 * n) + number 1)
    if lt distance ret then distance else ret
  else ret

/-- The meter of `MakePlan`; its `enough` is inherited from the numeric comparer. -/
def meter (n : ℕ) (initialState goalState : IWriteState N Other) : PlanningStateMeter N Other where
  goalState
  monotonic := true
  distance state := .ok (fnDistance n initialState.toState goalState.toState state.toState)
  enough state := .ok (NumericStateComparer.enough state goalState)

end

def tower : Peg → String
  | .A => "A"
  | .B => "B"
  | .C => "C"

theorem concatStringInt_inj {peg other : Peg} {i j : ℕ} :
    concatStringInt (tower peg) i = concatStringInt (tower other) j ↔ peg = other ∧ i = j := by
  constructor
  · intro same
    have chars := congrArg String.toList same
    have digits (n : ℕ) : Nat.ofDigitChars 10 (toString n).toList 0 = n := by
      show Nat.ofDigitChars 10 n.repr.toList 0 = n
      simp
    have numbers : (toString i).toList = (toString j).toList → i = j := fun written => by
      rw [← digits i, written, digits]
    cases peg <;> cases other <;> simp [concatStringInt, tower, String.toList_append] at chars
    all_goals exact ⟨rfl, numbers (by simpa using chars)⟩
  · rintro ⟨rfl, rfl⟩
    rfl

def stack (n : ℕ) (position : Position) (peg : Peg) : List ℕ :=
  ((List.range n).filter fun disc => position disc = peg).reverse

theorem mem_stack {n disc : ℕ} {position : Position} {peg : Peg} :
    disc ∈ stack n position peg ↔ disc < n ∧ position disc = peg := by
  simp [stack]

/-- Where a disc may go away from, it lies on top, and where it may go to it then lies on top. -/
theorem stack_of_movable {n disc : ℕ} {position : Position} {dest : Peg} (inside : disc < n)
    (movable : position.Movable disc dest) : ∃ left, stack n position (position disc) = left ++ [disc] ∧
      ∀ peg, stack n (position.move disc dest) peg =
        if peg = dest then stack n position dest ++ [disc] else if peg = position disc then left
        else stack n position peg := by
  obtain ⟨leaves, free⟩ := movable
  obtain ⟨larger, split, larger_lt⟩ : ∃ larger, List.range n = List.range disc ++ disc :: larger ∧ ∀ other ∈ larger, disc < other := by
    refine ⟨List.range' (disc + 1) (n - disc - 1), ?_, ?_⟩
    · have parts := List.range'_append_1 (s := 0) (m := disc) (n := n - disc)
      rw [List.range_eq_range', List.range_eq_range', ← List.range'_succ, Nat.sub_add_cancel (by omega)]
      simpa [Nat.add_sub_cancel' inside.le] using parts.symm
    · intro other member
      have := (List.mem_range'_1.mp member).1
      omega
  have smaller {peg : Peg} (other : peg ≠ Peg.third (position disc) dest) :
      (List.range disc).filter (fun small => position small = peg) = [] := by
    rw [List.filter_eq_nil_iff]
    intro small member
    simp [free small (List.mem_range.mp member), Ne.symm other]
  have rest (peg : Peg) : larger.filter (fun other => position.move disc dest other = peg) =
      larger.filter (fun other => position other = peg) := by
    apply List.filter_congr
    intro other member
    rw [Position.move_of_ne (Nat.ne_of_gt (larger_lt other member))]
  have below (peg : Peg) : (List.range disc).filter (fun other => position.move disc dest other = peg) =
      (List.range disc).filter (fun other => position other = peg) := by
    apply List.filter_congr
    intro other member
    rw [Position.move_of_ne (Nat.ne_of_lt (List.mem_range.mp member))]
  refine ⟨(larger.filter fun other => position other = position disc).reverse, ?_, ?_⟩
  · simp [stack, split, smaller (Peg.third_ne_left leaves).symm]
  · intro peg
    simp only [stack, split, List.filter_append, List.filter_cons, Position.move_self, rest, below]
    by_cases reached : peg = dest
    · subst reached
      simp [smaller (Peg.third_ne_right leaves).symm, leaves]
    · by_cases left : peg = position disc
      · subst left
        simp [smaller (Peg.third_ne_left leaves).symm, leaves, Ne.symm leaves]
      · simp [reached, left, Ne.symm reached, Ne.symm left]

theorem length_stack_le (n : ℕ) (position : Position) (peg : Peg) : (stack n position peg).length ≤ n := by
  rw [stack, List.length_reverse]
  exact (List.length_filter_le _ _).trans_eq List.length_range

def written (disc : ℕ) : Value Other := .int (Int32.ofNat (disc + 1))

/-- The values under the names of the places are the discs of a position, which lie at the
bottom of their towers. -/
def Shows (n : ℕ) (at? : String → Option (Value Other)) (position : Position) : Prop :=
  ∀ peg, ∀ i < n, at? (concatStringInt (tower peg) (i + 1)) = ((stack n position peg)[n - 1 - i]?).map written

variable {n : ℕ} {state : State Other} {position : Position}

theorem firstTaken_of_shows (shows' : Shows n state.at? position) (peg : Peg) :
    firstTaken state (tower peg) n =
      if stack n position peg = [] then none else some (n - (stack n position peg).length + 1) := by
  have fits := length_stack_le n position peg
  have taken (i : ℕ) (inside : i < n) : (state.at? (concatStringInt (tower peg) (i + 1))).isSome ↔
      n - 1 - i < (stack n position peg).length := by
    rw [shows' peg i inside, Option.isSome_map]
    simp
  rw [firstTaken, List.find?_map]
  split
  · rename_i nothing
    rw [Option.map_eq_none_iff, List.find?_range_eq_none]
    intro i inside
    have free := (taken i inside).not
    simpa [nothing] using free
  · rename_i something
    have positive := List.length_pos_iff.mpr something
    rw [Option.map_eq_some_iff]
    refine ⟨n - (stack n position peg).length, ?_, rfl⟩
    rw [List.find?_range_eq_some]
    refine ⟨(taken _ (by omega)).mpr (by omega), by simp; omega, ?_⟩
    intro i above
    have free := (taken i (by omega)).not
    have outside : ¬ n - 1 - i < (stack n position peg).length := by omega
    simpa [outside] using free

theorem getLast?_stack (n : ℕ) (position : Position) (peg : Peg) :
    (stack n position peg).getLast? = (List.range n).find? fun disc => position disc = peg := by
  rw [stack, List.getLast?_reverse, List.head?_filter]

theorem top_of_shows (shows' : Shows n state.at? position) (peg : Peg) :
    top state (tower peg) n = ((List.range n).find? fun disc => position disc = peg).map written := by
  have fits := length_stack_le n position peg
  rw [top, firstTaken_of_shows shows', ← getLast?_stack]
  split
  · rename_i nothing
    rw [nothing]
    rfl
  · rename_i something
    have positive := List.length_pos_iff.mpr something
    have last : n - 1 - (n - (stack n position peg).length) = (stack n position peg).length - 1 := by omega
    rw [Option.bind_some, shows' peg _ (by omega), last, List.getLast?_eq_getElem?]

theorem ofNat_lt_ofNat {disc other : ℕ} (small : n < 2 ^ 31) (inside : disc < n) (inside' : other < n) :
    Int32.ofNat (disc + 1) < Int32.ofNat (other + 1) ↔ disc < other := by
  rw [Int32.lt_iff_toInt_lt, Int32.toInt_ofNat_of_lt (by omega), Int32.toInt_ofNat_of_lt (by omega)]
  omega

/-- What is validated is what the rules allow. -/
theorem validate_iff (small : n < 2 ^ 31) (shows' : Shows n state.at? position) {source dest : Peg}
    (apart : source ≠ dest) : validate state (tower source) (tower dest) n = true ↔
      ∃ disc < n, position disc = source ∧ position.Movable disc dest := by
  rw [validate, top_of_shows shows', top_of_shows shows']
  constructor
  · intro valid
    cases found : (List.range n).find? fun disc => position disc = source with
    | none => simp [found] at valid
    | some disc =>
      obtain ⟨there, inside, above⟩ := List.find?_range_eq_some.mp found
      have inside := List.mem_range.mp inside
      have there : position disc = source := by simpa using there
      refine ⟨disc, inside, there, by rwa [there], ?_⟩
      intro smaller below
      rw [there]
      refine Peg.eq_third apart (by simpa using above smaller below) ?_
      intro blocking
      cases found' : (List.range n).find? fun disc => position disc = dest with
      | none =>
        rw [List.find?_range_eq_none] at found'
        simpa [blocking] using found' smaller (by omega)
      | some other =>
        obtain ⟨_, inside', above'⟩ := List.find?_range_eq_some.mp found'
        simp only [found, found', Option.map_some, written, decide_eq_true_eq] at valid
        rw [ofNat_lt_ofNat small inside (List.mem_range.mp inside')] at valid
        simpa [blocking] using above' smaller (by omega)
  · rintro ⟨disc, inside, there, leaves, free⟩
    rw [there] at free
    have found : (List.range n).find? (fun disc => position disc = source) = some disc := by
      refine List.find?_range_eq_some.mpr ⟨by simpa using there, List.mem_range.mpr inside, ?_⟩
      intro smaller below
      simpa [free smaller below] using Peg.third_ne_left apart
    rw [found]
    cases found' : (List.range n).find? fun disc => position disc = dest with
    | none => rfl
    | some other =>
      obtain ⟨blocking, inside', _⟩ := List.find?_range_eq_some.mp found'
      have blocking : position other = dest := by simpa using blocking
      simp only [Option.map_some, written, decide_eq_true_eq]
      rw [ofNat_lt_ofNat small inside (List.mem_range.mp inside')]
      rcases Nat.lt_trichotomy other disc with below | rfl | above
      · exact absurd ((free other below).symm.trans blocking) (Peg.third_ne_right apart)
      · exact absurd (there.symm.trans blocking) apart
      · exact above

/-- A move that the rules allow is made, and shows. Nothing else changes. -/
theorem move_of_shows (shows' : Shows n state.at? position) {disc : ℕ} {dest : Peg} (inside : disc < n)
    (movable : position.Movable disc dest) :
    ∃ state', move state (tower (position disc)) (tower dest) n = .ok state' ∧
      Shows n state'.at? (position.move disc dest) ∧
      ∀ name, (∀ peg, ∀ i < n, name ≠ concatStringInt (tower peg) (i + 1)) → state'.at? name = state.at? name := by
  obtain ⟨left, lies, moved⟩ := stack_of_movable inside movable
  have leaves := movable.leaves
  have fits := length_stack_le n position (position disc)
  have fits' := length_stack_le n (position.move disc dest) dest
  rw [moved, if_pos rfl, List.length_append, List.length_singleton] at fits'
  rw [lies, List.length_append, List.length_singleton] at fits
  -- the place that is left and the one above those that are taken
  let a := concatStringInt (tower (position disc)) (n - (left.length + 1) + 1)
  let b := concatStringInt (tower dest) (n - (stack n position dest).length - 1 + 1)
  refine ⟨(state.put b (state.at? a)).remove a, ?_, ?_, ?_⟩
  · unfold move
    rw [firstTaken_of_shows shows', firstTaken_of_shows shows', lies, List.length_append, List.length_singleton,
      if_neg (List.append_ne_nil_of_right_ne_nil left (List.cons_ne_nil disc []))]
    have place : n - (stack n position dest).length - 1 + 1 = n - (stack n position dest).length := by omega
    simp only [b, place]
    split
    · rename_i i taken
      split at taken
      · cases taken
      · cases taken
        have below : n - (stack n position dest).length + 1 ≠ 1 := by omega
        rw [if_neg below, Nat.add_sub_cancel]
    · rename_i free
      split at free
      · rename_i nothing
        rw [nothing]
        rfl
      · cases free
  · intro peg i below
    have value : state.at? a = some (written disc) := by
      have last : n - 1 - (n - (left.length + 1)) = left.length := by omega
      rw [shows' (position disc) (n - (left.length + 1)) (by omega), lies, last]
      simp
    have lowest : (i = n - (left.length + 1)) ↔ n - 1 - i = left.length := by omega
    have highest : (i = n - (stack n position dest).length - 1) ↔ n - 1 - i = (stack n position dest).length := by omega
    rw [State.remove, State.at?_put, State.at?_put, moved, value]
    simp only [a, b, concatStringInt_inj, Nat.add_right_cancel_iff, lowest, highest]
    have before := shows' peg i below
    by_cases reached : peg = dest
    · subst reached
      simp only [Ne.symm leaves, false_and, if_false, true_and, if_true]
      rcases Nat.lt_trichotomy (n - 1 - i) (stack n position peg).length with inner | outer | outside
      · rw [if_neg inner.ne, before, List.getElem?_append_left inner]
      · rw [if_pos outer, outer, List.getElem?_concat_length]
        rfl
      · rw [if_neg outside.ne', before, List.getElem?_eq_none outside.le, List.getElem?_eq_none]
        rw [List.length_append, List.length_singleton]
        omega
    · by_cases own : peg = position disc
      · subst own
        simp only [reached, false_and, if_false, true_and, if_true]
        rcases Nat.lt_trichotomy (n - 1 - i) left.length with inner | outer | outside
        · rw [if_neg inner.ne, before, lies, List.getElem?_append_left inner]
        · rw [if_pos outer, outer, List.getElem?_eq_none (Nat.le_refl _)]
          rfl
        · rw [if_neg outside.ne', before, lies, List.getElem?_eq_none outside.le, List.getElem?_eq_none]
          rw [List.length_append, List.length_singleton]
          omega
      · simp only [reached, own, false_and, if_false]
        exact before
  · intro name other
    rw [State.remove, State.at?_put, State.at?_put, if_neg (other _ _ (by omega)), if_neg (other _ _ (by omega))]

theorem firstTaken_congr {other : State Other} (same : state.at? = other.at?) (name : String) :
    firstTaken state name n = firstTaken other name n := by
  rw [firstTaken, firstTaken, same]

theorem validate_congr {other : State Other} (same : state.at? = other.at?) (source dest : String) :
    validate state source dest n = validate other source dest n := by
  simp only [validate, top, firstTaken_congr same, same]

theorem move_congr {other : State Other} (same : state.at? = other.at?) (source dest : String) :
    (move state source dest n).map State.at? = (move other source dest n).map State.at? := by
  have put (a b : String) : ((state.put b (state.at? a)).remove a).at? = ((other.put b (other.at? a)).remove a).at? := by
    funext key
    simp only [State.remove, State.at?_put, same]
  unfold move
  rw [firstTaken_congr same, firstTaken_congr same]
  split
  · rfl
  · split
    · split
      · rfl
      · exact congrArg Except.ok (put _ _)
    · exact congrArg Except.ok (put _ _)

theorem moveAction_reads (source dest : String) (n : ℕ) : (moveAction source dest n : ActionRef N Other).Reads where
  canExecute state other same := congrArg Except.ok (validate_congr (congrArg View.at? same) source dest)
  change state other same := by
    have read := move_congr (n := n) (congrArg View.at? same) source dest
    have cost : state.cost = other.cost := congrArg View.cost same
    simp only [moveAction, ActionRef.change]
    generalize move state.toState source dest n = moved at read ⊢
    generalize move other.toState source dest n = moved' at read ⊢
    cases moved with
    | error e =>
      cases moved' with
      | error e' => cases read; rfl
      | ok state' => cases read
    | ok state =>
      cases moved' with
      | error e => cases read
      | ok state' =>
        have values : state.at? = state'.at? := Except.ok.inj read
        simp only [Except.map, IWriteState.view, values, cost]

theorem mem_planner {action : ActionRef N Other} : action ∈ (planner N Other n)._planningActions ↔
    ∃ source dest, source ≠ dest ∧ action = moveAction (tower source) (tower dest) n := by
  constructor
  · intro member
    simp only [planner, List.mem_cons, List.not_mem_nil, or_false] at member
    rcases member with rfl | rfl | rfl | rfl | rfl | rfl
    · exact ⟨.A, .B, by decide, rfl⟩
    · exact ⟨.A, .C, by decide, rfl⟩
    · exact ⟨.B, .A, by decide, rfl⟩
    · exact ⟨.B, .C, by decide, rfl⟩
    · exact ⟨.C, .A, by decide, rfl⟩
    · exact ⟨.C, .B, by decide, rfl⟩
  · rintro ⟨source, dest, apart, rfl⟩
    cases source <;> cases dest <;> simp_all [planner, tower]

end HanoiTowers

end Goap.AS3
