import Mathlib.Data.List.Basic

namespace Goap

variable {N S : Type}

/-- The nodes of the list are numbered in the order in which they are made. -/
structure Sequencer (N S : Type) where
  _time : N
  _lstStates : List (Nat × N × S)

namespace Sequencer

def advanceInputTime [Add N] (this : Sequencer N S) (ticks : N) : Sequencer N S := { this with _time := this._time + ticks }

def pushState (this : Sequencer N S) (node : Nat) (state : S) : Sequencer N S :=
  { this with _lstStates := this._lstStates ++ [(node, this._time, state)] }

/-- `pullState`; there is no `front()` of an empty list. -/
def pullState (this : Sequencer N S) : Option ((N × S) × Sequencer N S) :=
  match this._lstStates with
  | [] => none
  | (_, ret) :: rest => some (ret, { this with _lstStates := rest })

/-- `begin()`, where `end()` is `none`. -/
def begin (this : Sequencer N S) : Option Nat := this._lstStates.head?.map Prod.fst

end Sequencer

/-- `*_it++` in a list: what is in a node, and the next one. A node that was erased is not found. -/
def advance : List (Nat × N × S) → Nat → Option ((N × S) × Option Nat)
  | [], _ => none
  | (other, pair) :: rest, node => if other = node then some (pair, rest.head?.map Prod.fst) else advance rest node

/-- A sequencer with iterators on it. `pushed` belongs to the model alone: what was put into the
nodes, by their numbers. -/
structure Sequencing (N S : Type) where
  sequencer : Sequencer N S
  iterators : List (Option Nat)
  pushed : List (N × S)

inductive SequencerCall (N S : Type) where
  | advanceInputTime (ticks : N)
  | pushState (state : S)
  | pullState
  | iterator
  | clone (k : Nat)
  | next (k : Nat)

namespace Sequencing

variable [Add N]

def new (zero : N) : Sequencing N S := ⟨⟨zero, []⟩, [], []⟩

/-- What a call returns, if it returns a state; nothing where its behaviour is undefined. -/
def step (this : Sequencing N S) : SequencerCall N S → Option (Option (N × S) × Sequencing N S)
  | .advanceInputTime ticks => some (none, { this with sequencer := this.sequencer.advanceInputTime ticks })
  | .pushState state => some (none, { this with
      sequencer := this.sequencer.pushState this.pushed.length state
      pushed := this.pushed ++ [(this.sequencer._time, state)] })
  | .pullState => this.sequencer.pullState.map fun pulled => (some pulled.1, { this with sequencer := pulled.2 })
  | .iterator => some (none, { this with iterators := this.iterators ++ [this.sequencer.begin] })
  | .clone k => this.iterators[k]?.map fun _it => (none, { this with iterators := this.iterators ++ [_it] })
  | .next k =>
    match this.iterators[k]? with
    | some (some node) => (advance this.sequencer._lstStates node).map fun advanced =>
        (some advanced.1, { this with iterators := this.iterators.set k advanced.2 })
    | _ => none

/-- `hasNext()` of an iterator. -/
def hasNext (this : Sequencing N S) (k : Nat) : Option Bool := this.iterators[k]?.map Option.isSome

/-- `pushString`, as the calls that it makes; `CNew` is the state with the character in it. -/
def pushString (CNew : Char → S) (inc : N) (strState : List Char) : List (SequencerCall N S) :=
  strState.flatMap fun ch => [.advanceInputTime inc, .pushState (CNew ch)]

/-- Calls with what they return, none of them undefined. -/
inductive Runs : Sequencing N S → List (SequencerCall N S × Option (N × S)) → Sequencing N S → Prop where
  | nil {this : Sequencing N S} : Runs this [] this
  | cons {this next after : Sequencing N S} {call : SequencerCall N S} {answer : Option (N × S)}
      {rest : List (SequencerCall N S × Option (N × S))} (stepped : this.step call = some (answer, next))
      (runs : Runs next rest after) : Runs this ((call, answer) :: rest) after

/-- What is pushed, with the time of it. -/
def stamped (time : N) : List (SequencerCall N S × Option (N × S)) → List (N × S)
  | [] => []
  | (.advanceInputTime ticks, _) :: rest => stamped (time + ticks) rest
  | (.pushState state, _) :: rest => (time, state) :: stamped time rest
  | _ :: rest => stamped time rest

def pulled : List (SequencerCall N S × Option (N × S)) → List (N × S)
  | [] => []
  | (.pullState, answer) :: rest => answer.toList ++ pulled rest
  | _ :: rest => pulled rest

def given (k : Nat) : List (SequencerCall N S × Option (N × S)) → List (N × S)
  | [] => []
  | (.next k', answer) :: rest => (if k' = k then answer.toList else []) ++ given k rest
  | _ :: rest => given k rest

def numbered {A : Type} : Nat → List A → List (Nat × A)
  | _, [] => []
  | first, value :: rest => (first, value) :: numbered (first + 1) rest

theorem numbered_append {A : Type} (first : Nat) (values more : List A) :
    numbered first (values ++ more) = numbered first values ++ numbered (first + values.length) more := by
  induction values generalizing first with
  | nil => rfl
  | cons value rest ih =>
    rw [List.cons_append, numbered, ih, numbered, List.cons_append, List.length_cons]
    have next : first + 1 + rest.length = first + (rest.length + 1) := by omega
    rw [next]

/-- The list holds the last of what was pushed, and iterators stand on what was. -/
structure Sound (this : Sequencing N S) (first : Nat) : Prop where
  bound : first ≤ this.pushed.length
  window : this.sequencer._lstStates = numbered first (this.pushed.drop first)
  inside : ∀ node, some node ∈ this.iterators → node < this.pushed.length

theorem numbered_values {A : Type} (first : Nat) (values : List A) : (numbered first values).map Prod.snd = values := by
  induction values generalizing first with
  | nil => rfl
  | cons value rest ih => rw [numbered, List.map_cons, ih]

omit [Add N] in
/-- Where an iterator stands after the node that it has read. -/
theorem advance_numbered {first node : Nat} {values : List (N × S)} {pair : N × S} {next : Option Nat}
    (advanced : advance (numbered first values) node = some (pair, next)) :
    first ≤ node ∧ values[node - first]? = some pair ∧
      next = if node + 1 < first + values.length then some (node + 1) else none := by
  induction values generalizing first with
  | nil => cases advanced
  | cons value rest ih =>
    rw [numbered, advance] at advanced
    split at advanced
    · rename_i same
      subst same
      cases advanced
      refine ⟨Nat.le_refl _, by simp, ?_⟩
      cases rest with
      | nil => simp [numbered]
      | cons other rest => simp [numbered]
    · obtain ⟨le, found, moved⟩ := ih advanced
      have index : node - first = node - (first + 1) + 1 := by omega
      refine ⟨by omega, by rw [index]; simpa using found, ?_⟩
      rw [moved, List.length_cons]
      congr 1
      simp only [eq_iff_iff]
      omega

variable {this after next : Sequencing N S} {call : SequencerCall N S} {answer : Option (N × S)} {first k node : Nat}
  {events : List (SequencerCall N S × Option (N × S))}

theorem step_next (stepped : this.step (.next k) = some (answer, next)) :
    ∃ node pair moved, this.iterators[k]? = some (some node) ∧
      advance this.sequencer._lstStates node = some (pair, moved) ∧ answer = some pair ∧
      next = { this with iterators := this.iterators.set k moved } := by
  rw [step] at stepped
  split at stepped
  · rename_i node found
    obtain ⟨⟨pair, moved⟩, advanced, same⟩ := Option.map_eq_some_iff.mp stepped
    cases same
    exact ⟨node, pair, moved, found, advanced, rfl, rfl⟩
  · cases stepped

theorem step_pullState (stepped : this.step .pullState = some (answer, next)) :
    ∃ node pair rest, this.sequencer._lstStates = (node, pair) :: rest ∧ answer = some pair ∧
      next = { this with sequencer := { this.sequencer with _lstStates := rest } } := by
  obtain ⟨⟨ret, sequencer⟩, taken, same⟩ := Option.map_eq_some_iff.mp stepped
  cases same
  unfold Sequencer.pullState at taken
  split at taken
  · cases taken
  · rename_i found
    cases taken
    exact ⟨_, _, _, found, rfl, rfl⟩

omit [Add N] in
theorem begin_none (empty : this.sequencer.begin = none) : this.sequencer._lstStates = [] := by
  simpa [Sequencer.begin] using empty

omit [Add N] in
theorem Sound.begin_some (sound : Sound this first) (start : this.sequencer.begin = some node) : node = first := by
  rw [Sequencer.begin, sound.window] at start
  cases left : this.pushed.drop first with
  | nil =>
    rw [left] at start
    cases start
  | cons value others =>
    rw [left] at start
    cases start
    rfl

/-- A call keeps the list of the last that was pushed, of which `pullState` takes one. -/
theorem Sound.step (sound : Sound this first) (stepped : this.step call = some (answer, next)) :
    ∃ first', Sound next first' := by
  obtain ⟨bound, window, inside⟩ := sound
  cases call with
  | advanceInputTime ticks =>
    cases stepped
    exact ⟨first, bound, window, inside⟩
  | pushState state =>
    cases stepped
    refine ⟨first, ?_, ?_, ?_⟩
    · rw [List.length_append]
      omega
    · rw [List.drop_append_of_le_length bound, numbered_append, ← window, List.length_drop, Nat.add_sub_cancel' bound]
      rfl
    · intro node member
      rw [List.length_append]
      have := inside node member
      omega
  | pullState =>
    obtain ⟨node, pair, rest, found, rfl, rfl⟩ := step_pullState stepped
    rw [window] at found
    cases left : this.pushed.drop first with
    | nil =>
      rw [left] at found
      cases found
    | cons value others =>
      rw [left] at found
      cases found
      have some' : first < this.pushed.length := by
        by_contra none
        rw [List.drop_eq_nil_of_le (Nat.not_lt.mp none)] at left
        cases left
      refine ⟨first + 1, some', ?_, inside⟩
      rw [List.drop_add_one_eq_tail_drop, left]
      rfl
  | iterator =>
    cases stepped
    refine ⟨first, bound, window, ?_⟩
    intro node member
    rcases List.mem_append.mp member with old | new
    · exact inside node old
    · rw [List.mem_singleton, Sequencer.begin, window] at new
      cases left : this.pushed.drop first with
      | nil =>
        rw [left] at new
        cases new
      | cons value others =>
        rw [left] at new
        cases new
        by_contra none
        rw [List.drop_eq_nil_of_le (Nat.not_lt.mp none)] at left
        cases left
  | clone k =>
    obtain ⟨_it, found, same⟩ := Option.map_eq_some_iff.mp stepped
    cases same
    refine ⟨first, bound, window, ?_⟩
    intro node member
    rcases List.mem_append.mp member with old | new
    · exact inside node old
    · exact inside node (List.mem_singleton.mp new ▸ List.mem_of_getElem? found)
  | next k =>
    obtain ⟨node, pair, moved, found, advanced, rfl, rfl⟩ := step_next stepped
    rw [window] at advanced
    obtain ⟨_, _, rfl⟩ := advance_numbered advanced
    refine ⟨first, bound, window, ?_⟩
    intro node' member
    rcases List.mem_or_eq_of_mem_set member with old | new
    · exact inside node' old
    · rw [List.length_drop, Nat.add_sub_cancel' bound] at new
      split at new
      · cases new
        assumption
      · cases new

theorem Runs.sound (runs : Runs this events after) (sound : Sound this first) : ∃ first', Sound after first' := by
  induction runs generalizing first with
  | nil => exact ⟨first, sound⟩
  | cons stepped _ ih =>
    obtain ⟨first', sound'⟩ := sound.step stepped
    exact ih sound'

theorem Runs.append {more : List (SequencerCall N S × Option (N × S))} {last : Sequencing N S} (runs : Runs this events after)
    (later : Runs after more last) : Runs this (events ++ more) last := by
  induction runs with
  | nil => exact later
  | cons stepped _ ih => exact .cons stepped (ih later)

omit [Add N] in
theorem sound_new (zero : N) : Sound (new zero : Sequencing N S) 0 := by
  refine ⟨Nat.le_refl _, rfl, ?_⟩
  intro node member
  cases member

/-- What was pulled and what is left is what was there and what was pushed. -/
theorem Runs.in_order (runs : Runs this events after) :
    after.pushed = this.pushed ++ stamped this.sequencer._time events ∧
      pulled events ++ after.sequencer._lstStates.map Prod.snd =
        this.sequencer._lstStates.map Prod.snd ++ stamped this.sequencer._time events := by
  induction runs with
  | nil => simp [stamped, pulled]
  | @cons this next after call answer rest stepped _ ih =>
    obtain ⟨pushed, order⟩ := ih
    cases call with
    | advanceInputTime ticks =>
      cases stepped
      exact ⟨pushed, order⟩
    | pushState state =>
      cases stepped
      simp only [Sequencer.pushState, List.append_assoc, List.map_append] at pushed order
      exact ⟨pushed, order⟩
    | pullState =>
      obtain ⟨node, pair, rest, found, rfl, rfl⟩ := step_pullState stepped
      refine ⟨pushed, ?_⟩
      simp only [pulled, Option.toList, found, List.map_cons, List.cons_append, List.nil_append, stamped]
      exact congrArg _ order
    | iterator =>
      cases stepped
      exact ⟨pushed, order⟩
    | clone k =>
      obtain ⟨_it, found, same⟩ := Option.map_eq_some_iff.mp stepped
      cases same
      exact ⟨pushed, order⟩
    | next k =>
      obtain ⟨_, _, _, _, _, rfl, rfl⟩ := step_next stepped
      exact ⟨pushed, order⟩

/-- A call that does not advance an iterator leaves it where it is. -/
theorem iterator_step {_it : Option Nat} (stepped : this.step call = some (answer, next))
    (found : this.iterators[k]? = some _it) (other : call ≠ .next k) :
    next.iterators[k]? = some _it ∧ given k [(call, answer)] = [] := by
  obtain ⟨inside, _⟩ := List.getElem?_eq_some_iff.mp found
  cases call with
  | advanceInputTime ticks =>
    cases stepped
    exact ⟨found, rfl⟩
  | pushState state =>
    cases stepped
    exact ⟨found, rfl⟩
  | pullState =>
    obtain ⟨_, _, _, _, _, rfl⟩ := step_pullState stepped
    exact ⟨found, rfl⟩
  | iterator =>
    cases stepped
    exact ⟨(List.getElem?_append_left inside).trans found, rfl⟩
  | clone k' =>
    obtain ⟨_it, _, same⟩ := Option.map_eq_some_iff.mp stepped
    cases same
    exact ⟨(List.getElem?_append_left inside).trans found, rfl⟩
  | next k' =>
    have apart : k' ≠ k := fun same => other (same ▸ rfl)
    obtain ⟨_, _, _, _, _, _, rfl⟩ := step_next stepped
    exact ⟨(List.getElem?_set_ne apart).trans found, by simp [given, apart]⟩

omit [Add N] in
theorem given_cons (k : Nat) (event : SequencerCall N S × Option (N × S)) (events : List (SequencerCall N S × Option (N × S))) :
    given k (event :: events) = given k [event] ++ given k events := by
  obtain ⟨call, answer⟩ := event
  cases call <;> simp [given]

theorem Runs.ended (runs : Runs this events after) (ended : this.iterators[k]? = some none) :
    given k events = [] ∧ after.iterators[k]? = some none := by
  induction runs with
  | nil => exact ⟨rfl, ended⟩
  | @cons this next after call answer rest stepped _ ih =>
    by_cases own : call = .next k
    · subst own
      obtain ⟨_, _, _, found, _⟩ := step_next stepped
      cases ended.symm.trans found
    · obtain ⟨kept, nothing⟩ := iterator_step stepped ended own
      obtain ⟨later, stays⟩ := ih kept
      exact ⟨by rw [given_cons, nothing, later, List.append_nil], stays⟩

/-- An iterator gives what was pushed, from where it stands, without a gap. It ends only after
all that was there at first, and where it has not ended it has not given everything. -/
theorem Runs.iterates (runs : Runs this events after) (sound : Sound this first)
    (found : this.iterators[k]? = some (some node)) :
    given k events = (after.pushed.drop node).take (given k events).length ∧
      (after.iterators[k]? = some (some (node + (given k events).length)) ∧
          node + (given k events).length < after.pushed.length ∨
        after.iterators[k]? = some none ∧ this.pushed.length ≤ node + (given k events).length) := by
  induction runs generalizing first node with
  | nil =>
    refine ⟨(List.take_zero).symm, .inl ⟨found, ?_⟩⟩
    exact sound.inside node (List.mem_of_getElem? found)
  | @cons this next after call answer rest stepped runs ih =>
    obtain ⟨first', sound'⟩ := sound.step stepped
    have grown : this.pushed.length ≤ next.pushed.length := by
      have pushed := (Runs.cons stepped .nil).in_order.1
      rw [pushed, List.length_append]
      exact Nat.le_add_right _ _
    by_cases own : call = .next k
    · subst own
      obtain ⟨node', pair, moved, found', advanced, rfl, rfl⟩ := step_next stepped
      cases found.symm.trans found'
      rw [sound.window] at advanced
      obtain ⟨le, value, rfl⟩ := advance_numbered advanced
      rw [List.getElem?_drop, Nat.add_sub_cancel' le] at value
      obtain ⟨inside, value⟩ := List.getElem?_eq_some_iff.mp value
      have later := runs.in_order.1
      have gives : given k ((.next k, some pair) :: rest) = pair :: given k rest := by simp [given]
      have start : after.pushed.drop node = pair :: after.pushed.drop (node + 1) := by
        have inside' : node < after.pushed.length := by
          rw [later, List.length_append]
          exact Nat.lt_add_right _ inside
        rw [List.drop_eq_getElem_cons inside']
        congr 1
        simp only [later, List.getElem_append_left inside, value]
      have length : node + (given k rest).length.succ = node + 1 + (given k rest).length := by omega
      have position := List.getElem?_set_self (a := if node + 1 < this.pushed.length then some (node + 1) else none)
        (List.getElem?_eq_some_iff.mp found).1
      rw [List.length_drop, Nat.add_sub_cancel' sound.bound] at ih runs sound'
      rw [gives, List.length_cons, start, List.take_succ_cons, length]
      split at position
      · rename_i before
        rw [if_pos before] at ih sound' runs
        obtain ⟨gave, stands⟩ := ih sound' position
        refine ⟨congrArg _ gave, stands.imp_right ?_⟩
        exact And.imp_right fun enough => Nat.le_trans enough (Nat.le_refl _)
      · rename_i last
        rw [if_neg last] at runs
        obtain ⟨nothing, stays⟩ := runs.ended position
        rw [nothing]
        exact ⟨rfl, .inr ⟨stays, Nat.not_lt.mp last⟩⟩
    · obtain ⟨kept, nothing⟩ := iterator_step stepped found own
      rw [given_cons, nothing, List.nil_append]
      obtain ⟨gave, stands⟩ := ih sound' kept
      refine ⟨gave, stands.imp_right ?_⟩
      exact And.imp_right fun enough => Nat.le_trans grown enough

/-- A string that is pushed is behind what was there, a state for each character. -/
theorem Runs.pushString {CNew : Char → S} {inc : N} {strState : List Char} (runs : Runs this events after)
    (calls : events.map Prod.fst = pushString CNew inc strState) :
    after.sequencer._lstStates.map (fun entry => entry.2.2) =
      this.sequencer._lstStates.map (fun entry => entry.2.2) ++ strState.map CNew := by
  induction strState generalizing this events with
  | nil =>
    cases runs with
    | nil => exact (List.append_nil _).symm
    | cons _ _ => cases calls
  | cons ch rest ih =>
    cases runs with
    | nil => cases calls
    | cons advanced runs =>
      cases runs with
      | nil => cases calls
      | cons pushed runs =>
        obtain ⟨ticks, called⟩ := List.cons.inj calls
        obtain ⟨state, others⟩ := List.cons.inj called
        dsimp only at ticks state
        subst ticks state
        cases advanced
        cases pushed
        rw [ih runs others]
        simp [Sequencer.pushState, Sequencer.advanceInputTime]

/-- States are pulled in the order in which they are pushed, with the times of then. An iterator
gives those that are there when it is made and those that are pushed later, in this order and
without a gap, as long as it has a next one. Once it has none it gives no more, and then it has
given at least those that were there. -/
theorem first_in_first_out {zero : N} {before : List (SequencerCall N S × Option (N × S))}
    (earlier : Runs (new zero) before this) (made : this.step .iterator = some (answer, next))
    (later : Runs next events after) :
    pulled (before ++ (.iterator, answer) :: events) ++ after.sequencer._lstStates.map Prod.snd =
        stamped zero (before ++ (.iterator, answer) :: events) ∧
      given this.iterators.length events <+:
        this.sequencer._lstStates.map Prod.snd ++ stamped this.sequencer._time events ∧
      (after.hasNext this.iterators.length = some true ∧ (given this.iterators.length events).length <
          (this.sequencer._lstStates.map Prod.snd ++ stamped this.sequencer._time events).length ∨
        after.hasNext this.iterators.length = some false ∧
          this.sequencer._lstStates.length ≤ (given this.iterators.length events).length) := by
  have whole := earlier.append (.cons made later)
  refine ⟨by simpa [new] using whole.in_order.2, ?_⟩
  obtain ⟨first, sound⟩ := earlier.sound (sound_new zero)
  obtain ⟨first', sound'⟩ := sound.step made
  cases made
  have stands : (this.iterators ++ [this.sequencer.begin])[this.iterators.length]? = some this.sequencer.begin :=
    List.getElem?_concat_length
  have pushed := later.in_order.1
  have there : after.pushed.drop first =
      this.sequencer._lstStates.map Prod.snd ++ stamped this.sequencer._time events := by
    rw [pushed, List.drop_append_of_le_length sound.bound, sound.window, numbered_values]
  have size : this.sequencer._lstStates.length + first = this.pushed.length := by
    rw [← List.length_map Prod.snd, sound.window, numbered_values, List.length_drop]
    exact Nat.sub_add_cancel sound.bound
  unfold hasNext
  rw [← there, List.length_drop]
  cases start : this.sequencer.begin with
  | none =>
    obtain ⟨nothing, stays⟩ := later.ended (stands.trans (congrArg some start))
    rw [nothing, stays, begin_none start]
    exact ⟨List.nil_prefix, .inr ⟨rfl, Nat.le_refl _⟩⟩
  | some node =>
    obtain rfl := sound.begin_some start
    obtain ⟨gave, position⟩ := later.iterates sound' (stands.trans (congrArg some start))
    refine ⟨gave ▸ List.take_prefix _ _, ?_⟩
    rcases position with ⟨more, before⟩ | ⟨ended, all⟩
    · rw [more]
      exact .inl ⟨rfl, by omega⟩
    · rw [ended]
      refine .inr ⟨rfl, ?_⟩
      simp only at all
      omega

theorem first_in_first_out_late :
    given 0 [(.pushState 'b', none), (.next 0, some (0, 'a')), (.pullState, some (0, 'a')), (.next 0, some (0, 'b'))] <+:
      [(0, 'a')] ++ stamped 0 [(.pushState 'b', none), (.next 0, some (0, 'a')), (.pullState, some (0, 'a')),
        (.next 0, some (0, 'b'))] := by
  have earlier : Runs (new 0) [(.pushState 'a', none)] ⟨⟨0, [(0, 0, 'a')]⟩, [], [(0, 'a')]⟩ := .cons rfl .nil
  have later : Runs ⟨⟨0, [(0, 0, 'a')]⟩, [some 0], [(0, 'a')]⟩
      [(.pushState 'b', none), (.next 0, some (0, 'a')), (.pullState, some (0, 'a')), (.next 0, some (0, 'b'))]
      ⟨⟨0, [(1, 0, 'b')]⟩, [none], [(0, 'a'), (0, 'b')]⟩ :=
    .cons rfl (.cons rfl (.cons rfl (.cons rfl .nil)))
  exact (first_in_first_out earlier rfl later).2.1

end Sequencing

end Goap
