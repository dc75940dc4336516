import Goap.Stream.BasicStreamBuffer
import Mathlib.Algebra.Order.Ring.Nat
import Mathlib.Data.List.AList

/-! `BasicSinkCollection`: sinks under names, to all of which a call goes on. A collection is a
sink too, so that a call may go through several of them. -/

namespace Goap

/-- The sinks by number: the collections with their map, and what all others have been told. -/
structure Sinks where
  _sinks : Nat → Option (AList fun _ : String => Nat)
  told : Nat → List SinkCall

namespace Sinks

def putSink (this : Sinks) (collection : Nat) (name : String) (sink : Nat) : Sinks :=
  { this with _sinks := Function.update this._sinks collection ((this._sinks collection).map (·.insert name sink)) }

def removeSink (this : Sinks) (collection : Nat) (name : String) : Sinks :=
  { this with _sinks := Function.update this._sinks collection ((this._sinks collection).map (·.erase name)) }

/-- `write`, `flush` and `eof`. A collection is locked while it passes a call on, so that a call
never returns from one that it comes to again; it needs more than any fuel. -/
def call (this : Sinks) (told : SinkCall) : Nat → Nat → Option Sinks
  | 0, _ => none
  | fuel + 1, sink =>
    match this._sinks sink with
    | none => some { this with told := Function.update this.told sink (this.told sink ++ [told]) }
    | some named => named.entries.foldlM (fun (this : Sinks) entry => this.call told fuel entry.2) this

def callAll (told : SinkCall) (fuel : Nat) (this : Sinks) (entries : List (Sigma fun _ : String => Nat)) : Option Sinks :=
  entries.foldlM (fun (this : Sinks) entry => this.call told fuel entry.2) this

theorem callAll_cons_iff {told : SinkCall} {fuel : Nat} {this after : Sinks} {entry : Sigma fun _ : String => Nat}
    {rest : List (Sigma fun _ : String => Nat)} : callAll told fuel this (entry :: rest) = some after ↔
      ∃ next, this.call told fuel entry.2 = some next ∧ callAll told fuel next rest = some after := by
  rw [callAll, List.foldlM_cons]
  exact Option.bind_eq_some_iff

/-- In how many ways the names in collections lead from a sink to one that is no collection. -/
def ways (_sinks : Nat → Option (AList fun _ : String => Nat)) (leaf : Nat) : Nat → Nat → Nat
  | 0, _ => 0
  | fuel + 1, sink =>
    match _sinks sink with
    | none => if sink = leaf then 1 else 0
    | some named => (named.entries.map fun entry => ways _sinks leaf fuel entry.2).sum

/-- A call that returns has come to every sink as often as there are ways to it. -/
theorem call_spec {told : SinkCall} {fuel sink : Nat} {this after : Sinks} (called : this.call told fuel sink = some after) :
    after._sinks = this._sinks ∧
      ∀ leaf, after.told leaf = this.told leaf ++ List.replicate (ways this._sinks leaf fuel sink) told := by
  induction fuel generalizing this after sink with
  | zero => cases called
  | succ fuel ih =>
    unfold call at called
    cases found : this._sinks sink with
    | none =>
      simp only [found, Option.some.injEq] at called
      subst called
      refine ⟨rfl, fun leaf => ?_⟩
      by_cases same : sink = leaf
      · subst same
        simp [ways, found]
      · simp [ways, found, same, Ne.symm same]
    | some named =>
      simp only [found] at called
      have passed : ∀ (entries : List (Sigma fun _ : String => Nat)) (this : Sinks),
          callAll told fuel this entries = some after →
          after._sinks = this._sinks ∧ ∀ leaf, after.told leaf = this.told leaf ++
            List.replicate (entries.map fun entry => ways this._sinks leaf fuel entry.2).sum told := by
        intro entries
        induction entries with
        | nil =>
          intro this same
          cases same
          exact ⟨rfl, fun leaf => by simp⟩
        | cons entry rest ihRest =>
          intro this called
          obtain ⟨next, first, called⟩ := callAll_cons_iff.mp called
          obtain ⟨same, told⟩ := ih first
          obtain ⟨same', told'⟩ := ihRest next called
          refine ⟨same'.trans same, fun leaf => ?_⟩
          rw [told', told, same, List.append_assoc, ← List.replicate_add, List.map_cons, List.sum_cons]
      obtain ⟨same, told⟩ := passed named.entries this called
      refine ⟨same, fun leaf => ?_⟩
      rw [told, ways]
      simp only [found]

def In (_sinks : Nat → Option (AList fun _ : String => Nat)) (sink collection : Nat) : Prop :=
  ∃ named, _sinks collection = some named ∧ ∃ entry ∈ named.entries, entry.2 = sink

theorem callAll_mono {told : SinkCall} {fuel more : Nat} (entries : List (Sigma fun _ : String => Nat))
    (mono : ∀ (this after : Sinks) sink, this.call told fuel sink = some after → this.call told more sink = some after)
    {this after : Sinks} (called : callAll told fuel this entries = some after) :
    callAll told more this entries = some after := by
  induction entries generalizing this with
  | nil => exact called
  | cons entry rest ih =>
    obtain ⟨next, first, called⟩ := callAll_cons_iff.mp called
    exact callAll_cons_iff.mpr ⟨next, mono this next entry.2 first, ih called⟩

theorem call_mono {told : SinkCall} {fuel more : Nat} (le : fuel ≤ more) (this after : Sinks) (sink : Nat)
    (called : this.call told fuel sink = some after) : this.call told more sink = some after := by
  induction fuel generalizing more this after sink with
  | zero => cases called
  | succ fuel ih =>
    obtain ⟨more, rfl⟩ := Nat.exists_eq_add_of_le' (Nat.le_trans (Nat.le_add_left 1 fuel) le)
    unfold call at called ⊢
    cases found : this._sinks sink with
    | none => simpa only [found] using called
    | some named =>
      simp only [found] at called ⊢
      exact callAll_mono named.entries (ih (Nat.le_of_succ_le_succ le)) called

/-- A call that returns has returned from everything in a collection. -/
theorem acc_of_call {told : SinkCall} {fuel sink : Nat} {this after : Sinks}
    (called : this.call told fuel sink = some after) : Acc (In this._sinks) sink := by
  induction fuel generalizing this after sink with
  | zero => cases called
  | succ fuel ih =>
    unfold call at called
    constructor
    rintro inner ⟨named, found, entry, member, rfl⟩
    simp only [found] at called
    change callAll told fuel this named.entries = some after at called
    clear found
    generalize named.entries = entries at member called
    induction entries generalizing this with
    | nil => cases member
    | cons head rest ihRest =>
      obtain ⟨next, first, called⟩ := callAll_cons_iff.mp called
      rcases List.mem_cons.mp member with rfl | later
      · exact ih first
      · rw [← (call_spec first).1]
        exact ihRest later called

theorem call_of_acc (told : SinkCall) {sink : Nat} {_sinks : Nat → Option (AList fun _ : String => Nat)}
    (acc : Acc (In _sinks) sink) :
    ∃ fuel, ∀ this : Sinks, this._sinks = _sinks → ∃ after, this.call told fuel sink = some after := by
  induction acc with
  | intro sink _ ih =>
    cases found : _sinks sink with
    | none =>
      refine ⟨1, ?_⟩
      rintro this rfl
      exact ⟨_, by rw [call, found]⟩
    | some named =>
      have inside : ∀ entry ∈ named.entries, In _sinks entry.2 sink := fun entry member =>
        ⟨named, found, entry, member, rfl⟩
      suffices through : ∃ fuel, ∀ this : Sinks, this._sinks = _sinks → ∃ after,
          callAll told fuel this named.entries = some after by
        obtain ⟨fuel, through⟩ := through
        refine ⟨fuel + 1, fun this same => ?_⟩
        obtain ⟨after, called⟩ := through this same
        exact ⟨after, by rw [call, same, found]; exact called⟩
      generalize named.entries = entries at inside
      induction entries with
      | nil => exact ⟨0, fun this _ => ⟨this, rfl⟩⟩
      | cons entry rest ihRest =>
        obtain ⟨first, others⟩ := List.forall_mem_cons.mp inside
        obtain ⟨fuel, own⟩ := ih entry.2 first
        obtain ⟨fuel', through⟩ := ihRest others
        refine ⟨max fuel fuel', fun this same => ?_⟩
        obtain ⟨next, called⟩ := own this same
        obtain ⟨after, called'⟩ := through next ((call_spec called).1.trans same)
        refine ⟨after, callAll_cons_iff.mpr ⟨next, call_mono (Nat.le_max_left _ _) this next entry.2 called, ?_⟩⟩
        exact callAll_mono rest (call_mono (Nat.le_max_right _ _)) called'

/-- A call returns exactly if going into collections comes to an end, so never from one that it
comes to again. -/
theorem call_returns_iff (this : Sinks) (told : SinkCall) (sink : Nat) :
    (∃ fuel after, this.call told fuel sink = some after) ↔ Acc (In this._sinks) sink := by
  constructor
  · rintro ⟨fuel, after, called⟩
    exact acc_of_call called
  · intro acc
    obtain ⟨fuel, returns⟩ := call_of_acc told acc
    exact ⟨fuel, returns this rfl⟩

end Sinks

/-- A stream with a collection as its sink. -/
structure Logging where
  buffer : BasicStreamBuffer Unit
  sinks : Sinks

/-- What is done with the stream and with collections. -/
inductive LogCall where
  | stream (call : StreamCall Unit)
  | putSink (collection : Nat) (name : String) (sink : Nat)
  | removeSink (collection : Nat) (name : String)

namespace BasicStreamBuffer

/-- What a stream has told its sinks it does not take back. -/
theorem told_step {Sink : Type} [DecidableEq Sink] (this : BasicStreamBuffer Sink) (call : StreamCall Sink) (sink : Sink) :
    ∃ calls, (this.step call).told sink = this.told sink ++ calls := by
  have tells (this : BasicStreamBuffer Sink) (told : SinkCall) :
      ∃ calls, (this.tell told).told sink = this.told sink ++ calls := ⟨_, told_tell told sink⟩
  have writes (this : BasicStreamBuffer Sink) (told : SinkCall) :
      ∃ calls, ((this.write this.pending).tell told).told sink = this.told sink ++ calls := by
    obtain ⟨calls, first⟩ := tells this (.write this.pending)
    obtain ⟨more, second⟩ := tells (this.write this.pending) told
    exact ⟨calls ++ more, by rw [second, write, first, List.append_assoc]⟩
  cases call with
  | flush => exact writes this .flush
  | setSink data =>
    cases data with
    | none => exact ⟨[], (List.append_nil _).symm⟩
    | some data => exact writes this .flush
  | insert bytes =>
    rw [step]
    induction bytes generalizing this with
    | nil => exact ⟨[], (List.append_nil _).symm⟩
    | cons c rest ih =>
      have put : ∃ calls, (this.sputc c).2.told sink = this.told sink ++ calls := by
        unfold sputc
        split
        · exact ⟨[], (List.append_nil _).symm⟩
        · rw [overflow, if_pos (toIntType_ne_eof c)]
          exact writes this (.write _)
      obtain ⟨calls, first⟩ := put
      obtain ⟨more, second⟩ := ih (this.sputc c).2
      rw [xsputn]
      dsimp only
      split
      · exact ⟨calls, first⟩
      · exact ⟨calls ++ more, by rw [second, first, List.append_assoc]⟩

end BasicStreamBuffer

namespace Logging

/-- The collection passes on what the stream has told it. -/
def step (fuel root : Nat) (this : Logging) : LogCall → Option Logging
  | .stream call =>
    let buffer := this.buffer.step call
    let calls := (buffer.told ()).drop (this.buffer.told ()).length
    (calls.foldlM (fun (sinks : Sinks) told => sinks.call told fuel root) this.sinks).map fun sinks => ⟨buffer, sinks⟩
  | .putSink collection name sink => some { this with sinks := this.sinks.putSink collection name sink }
  | .removeSink collection name => some { this with sinks := this.sinks.removeSink collection name }

def inserted : List LogCall → List UInt8
  | [] => []
  | .stream call :: rest => BasicStreamBuffer.insertedWhile () () [call] ++ inserted rest
  | _ :: rest => inserted rest

/-- Runs before each call of which there is one number of ways from the collection to a sink. -/
inductive Runs (fuel root leaf count : Nat) : Logging → List LogCall → Logging → Prop where
  | nil {this : Logging} : Runs fuel root leaf count this [] this
  | cons {this next after : Logging} {call : LogCall} {rest : List LogCall}
      (linked : Sinks.ways this.sinks._sinks leaf fuel root = count) (stepped : this.step fuel root call = some next)
      (runs : Runs fuel root leaf count next rest after) : Runs fuel root leaf count this (call :: rest) after

def given (this : Logging) : List UInt8 := received (this.buffer.told ()) ++ this.buffer.pending

theorem passed_on {fuel root : Nat} {calls : List SinkCall} {this after : Sinks}
    (passed : calls.foldlM (fun (sinks : Sinks) told => sinks.call told fuel root) this = some after) :
    after._sinks = this._sinks ∧ ∀ leaf,
      after.told leaf = this.told leaf ++ calls.flatMap (List.replicate (Sinks.ways this._sinks leaf fuel root)) := by
  induction calls generalizing this with
  | nil =>
    cases passed
    exact ⟨rfl, fun leaf => (List.append_nil _).symm⟩
  | cons told rest ih =>
    rw [List.foldlM_cons] at passed
    obtain ⟨next, first, passed⟩ := Option.bind_eq_some_iff.mp passed
    obtain ⟨same, told⟩ := Sinks.call_spec first
    obtain ⟨same', told'⟩ := ih passed
    refine ⟨same'.trans same, fun leaf => ?_⟩
    rw [told', told, same, List.append_assoc, List.flatMap_cons]

/-- A sink is told what the stream tells, once for each way to it. -/
theorem Runs.spec {fuel root leaf count : Nat} {this after : Logging} {calls : List LogCall}
    (runs : Runs fuel root leaf count this calls after) :
    after.given = this.given ++ inserted calls ∧ ∃ told, after.buffer.told () = this.buffer.told () ++ told ∧
      after.sinks.told leaf = this.sinks.told leaf ++ told.flatMap (List.replicate count) := by
  induction runs with
  | nil => exact ⟨(List.append_nil _).symm, [], (List.append_nil _).symm, (List.append_nil _).symm⟩
  | @cons this next after call rest linked stepped _ ih =>
    obtain ⟨grown, told, buffer, leafs⟩ := ih
    cases call with
    | stream call =>
      obtain ⟨sinks, passed, rfl⟩ := Option.map_eq_some_iff.mp stepped
      obtain ⟨first, known⟩ := this.buffer.told_step call ()
      have owed := @BasicStreamBuffer.owed_run _ _ this.buffer [call] ()
      simp only [List.foldl_cons, List.foldl_nil, BasicStreamBuffer.owed, if_true] at owed
      rw [known, List.drop_left] at passed
      obtain ⟨_, leafs'⟩ := passed_on passed
      refine ⟨?_, first ++ told, by rw [buffer, known, List.append_assoc], ?_⟩
      · rw [grown, given, inserted, ← List.append_assoc]
        exact congrArg (· ++ _) owed
      · rw [leafs, leafs' leaf, linked, List.flatMap_append, List.append_assoc]
    | putSink collection name sink =>
      cases stepped
      exact ⟨grown, told, buffer, leafs⟩
    | removeSink collection name =>
      cases stepped
      exact ⟨grown, told, buffer, leafs⟩

/-- A sink that is linked in one way from some time on gets what is inserted from then on, after
what waited in the put area, and what waits there now is what it has not got. -/
theorem told_while_linked {fuel root leaf : Nat} {this linked after : Logging} {before during : List LogCall}
    (begun : this.given = []) (silent : this.sinks.told leaf = []) (first : Runs fuel root leaf 0 this before linked)
    (second : Runs fuel root leaf 1 linked during after) :
    ∃ passed, inserted before = passed ++ linked.buffer.pending ∧
      inserted before ++ inserted during = passed ++ received (after.sinks.told leaf) ++ after.buffer.pending ∧
      linked.buffer.pending.length ≤ 128 ∧ after.buffer.pending.length ≤ 128 := by
  obtain ⟨grown, told, buffer, leafs⟩ := first.spec
  obtain ⟨grown', told', buffer', leafs'⟩ := second.spec
  rw [begun, List.nil_append] at grown
  refine ⟨received (linked.buffer.told ()), grown.symm, ?_, linked.buffer.room, after.buffer.room⟩
  have single : told'.flatMap (List.replicate 1) = told' := List.flatMap_singleton' told'
  have none : told.flatMap (List.replicate 0) = [] := List.flatMap_eq_nil_iff.mpr fun _ _ => rfl
  rw [leafs', leafs, silent, none, single, ← grown, ← grown', given, buffer', received_append]
  simp

/-- A stream on an empty collection, which is sink 0. -/
def new : Logging where
  buffer := ⟨fun _ => [], (), [], Nat.zero_le _⟩
  sinks := ⟨Function.update (fun _ => none) 0 (some ∅), fun _ => []⟩

theorem told_while_linked_late : ∃ linked after : Logging, ∃ passed,
    Runs 2 0 1 0 new [.stream (.insert [65]), .putSink 0 "late" 1] linked ∧
      Runs 2 0 1 1 linked [.stream (.insert [66]), .stream .flush] after ∧ [65] = passed ++ linked.buffer.pending ∧
      [65, 66] = passed ++ received (after.sinks.told 1) ++ after.buffer.pending := by
  obtain ⟨linked, first, after, second⟩ : ∃ linked,
      Runs 2 0 1 0 new [.stream (.insert [65]), .putSink 0 "late" 1] linked ∧
        ∃ after, Runs 2 0 1 1 linked [.stream (.insert [66]), .stream .flush] after :=
    ⟨_, .cons rfl rfl (.cons rfl rfl .nil), _, .cons rfl rfl (.cons rfl rfl .nil)⟩
  obtain ⟨passed, waited, got, _⟩ := told_while_linked rfl rfl first second
  exact ⟨linked, after, passed, first, second, waited, got⟩

end Logging

end Goap
