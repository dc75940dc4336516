import Goap.Foundation.Run
import Goap.Value.StateValue

namespace Goap

open FloatOps Foundation

variable {F : Type} [FloatOps F]

namespace BasicMath

/-- `std::llround`: halves are rounded away from zero. -/
def llround (x : F) : Int :=
  let whole := (toInt64 x).toInt
  if le (lit (1 / 2)) (abs (x - lit whole)) then
    if lt x (lit 0) then whole - 1 else whole + 1
  else whole

/-- `a[i]`; `none` outside the array. -/
def subscript (a : List F) (i : Int) : Option F :=
  if i < 0 then none else a[i.toNat]?

/-- Linear interpolation in an array. -/
def interp1 (x : F) (a : List F) : Option F :=
  let n : Int := a.length
  if le x (lit 0) then subscript a 0
  else if le (lit (n - 1 : Int)) x then subscript a (n - 1)
  else do
    let j := (toInt64 x).toInt
    let here ← subscript a j
    let next ← subscript a (j + 1)
    return here + (x - lit j) * (next - here)

/-- The parabola through three points, for -1 < x < 1. -/
def parabola (x f_1 f0 f1 : F) : F :=
  if le x (lit (-1)) then f_1
  else if le (lit 1) x then f1
  else
    let l := f0 - x * (f_1 - f0)
    let r := f0 + x * (f1 - f0)
    (l + r + x * (r - l)) / lit 2

/-- Quadratic interpolation in an array. -/
def interp2 (x : F) (a : List F) : Option F :=
  if le x (lit (1 / 2)) || le (lit a.length - lit (3 / 2)) x then interp1 x a
  else do
    let j := (toInt64 (x + lit (1 / 2))).toInt
    let t := lit 2 * (x - lit j)
    let before ← subscript a (j - 1)
    let here ← subscript a j
    let next ← subscript a (j + 1)
    return parabola t ((before + here) / lit 2) here ((here + next) / lit 2)

/-- `interp2array`: what it writes to the `m` places of its target. -/
def interp2array (a : List F) (m : Nat) : Option (List F) :=
  let step := lit ((a.length : Int) - 1 : Int) / lit ((m : Int) - 1 : Int)
  (List.range m).mapM fun j => interp2 (lit j * step) a

/-- A `bool` converted to `float`. -/
def ofBool (truth : Bool) : F := if truth then lit 1 else lit 0

end BasicMath

open BasicMath

/-- `StateValue` with `_cachedHash`; 0 stands for no hash. -/
structure CachedValue (F : Type) where
  value : StateValue F
  cachedHash : UInt64

/-- What a member function throws; the object is left as it was. -/
inductive Failure where
  | runtimeError (what : String)
  | outOfRange
  | lengthError
deriving DecidableEq

namespace CachedValue

/-- The constructors: a value comes without a hash. -/
def new (value : StateValue F) : CachedValue F := ⟨value, 0⟩

def touch (this : CachedValue F) : CachedValue F := { this with cachedHash := 0 }

/-- `hash()`: computed when no hash is kept, and kept from then on. -/
def hash (this : CachedValue F) : UInt64 × CachedValue F :=
  if this.cachedHash = 0 then (this.value.hash, { this with cachedHash := this.value.hash })
  else (this.cachedHash, this)

/-- `vector<float>::max_size()`. -/
def maxSize : Int := 2 ^ 61 - 1

/-- `resize`; a negative length is a `size_t` beyond the limit. -/
def resize (this : CachedValue F) (len : Int) : Except Failure (CachedValue F) :=
  if len < 0 ∨ maxSize < len then .error .lengthError
  else
    let data := this.value.data
    .ok (new ⟨data.take len.toNat ++ List.replicate (len.toNat - data.length) (lit 0)⟩)

/-- `put(int64_t, float)`. -/
def put (this : CachedValue F) (idx : Int) (value : F) : Except Failure (CachedValue F) :=
  if idx < 0 then .error (.runtimeError "put")
  else if idx.toNat < this.value.size then .ok (new ⟨this.value.data.set idx.toNat value⟩)
  else .error .outOfRange

/-- `put(float, float)`. -/
def putFloat (this : CachedValue F) (idx value : F) : Except Failure (CachedValue F) :=
  let i := llround idx
  if i < 0 then .error (.runtimeError "put") else this.put i value

/-- The loop that the operators share: `put(i, next i (at(i)))` for the first
`count` positions. -/
def putEach (this : CachedValue F) (count : Nat) (next : Nat → F → F) : Except Failure (CachedValue F) :=
  (List.range count).foldlM (fun this (i : Nat) => this.put i (next i (this.value.atInt64 i))) this

def putAll (this : CachedValue F) (value : F) : Except Failure (CachedValue F) :=
  this.putEach this.value.size fun _ _ => value

/-- `interpolateFrom` of another value; `none` where it reads outside that value. -/
def interpolateFrom (this : CachedValue F) (other : StateValue F) : Option (CachedValue F) :=
  if 0 < this.value.size then do
    let data ← interp2array other.data this.value.size
    return new ⟨data⟩
  else some this.touch

/-- How `add` makes room for the components of the other value. -/
def grow (this : CachedValue F) (otherSize : Nat) : Except Failure (CachedValue F) :=
  if this.value.size < otherSize then this.resize otherSize else .ok this

/-- `add(const IStateValue::CNew &)`. -/
def add (this : CachedValue F) (other : StateValue F) : Except Failure (CachedValue F) := do
  let this ← this.grow other.size
  let this ← this.putEach other.size fun i thisValue => thisValue + other.atInt64 i
  return this.touch

/-- `mul(const IStateValue::CNew &)`: missing components are zeros. -/
def mul (this : CachedValue F) (other : StateValue F) : Except Failure (CachedValue F) := do
  let this ← this.putEach this.value.size fun i thisValue =>
    if other.size ≤ i then lit 0 else thisValue * other.atInt64 i
  return this.touch

def and_logic (this : CachedValue F) (other : StateValue F) : Except Failure (CachedValue F) := do
  let this ← this.putEach this.value.size fun i thisValue =>
    if other.size ≤ i then lit 0
    else ofBool (!eq thisValue (lit 0) && !eq (other.atInt64 i) (lit 0))
  return this.touch

/-- `or_logic`, which stops at the end of the other value. -/
def or_logic (this : CachedValue F) (other : StateValue F) : Except Failure (CachedValue F) := do
  let this ← this.putEach (min this.value.size other.size) fun i thisValue =>
    ofBool (!eq thisValue (lit 0) || !eq (other.atInt64 i) (lit 0))
  return this.touch

/-- The operators with one `float` or `bool` for all components. -/
def mapAll (this : CachedValue F) (next : F → F) : Except Failure (CachedValue F) := do
  let this ← this.putEach this.value.size fun _ thisValue => next thisValue
  return this.touch

def addFloat (this : CachedValue F) (other : F) : Except Failure (CachedValue F) :=
  this.mapAll fun thisValue => thisValue + other

def mulFloat (this : CachedValue F) (other : F) : Except Failure (CachedValue F) :=
  this.mapAll fun thisValue => thisValue * other

def andBool (this : CachedValue F) (other : Bool) : Except Failure (CachedValue F) :=
  this.mapAll fun thisValue => ofBool (!eq thisValue (lit 0) && other)

def orBool (this : CachedValue F) (other : Bool) : Except Failure (CachedValue F) :=
  this.mapAll fun thisValue => ofBool (!eq thisValue (lit 0) || other)

def clear (_ : CachedValue F) : CachedValue F := ⟨⟨[]⟩, 0⟩

end CachedValue

/-- `at(float)`: interpolated between the components. -/
def StateValue.atFloat (value : StateValue F) (idx : F) : Option F :=
  if value.size = 0 then some (lit 0) else interp2 idx value.data

/-- The order of `vector<float>`. -/
def StateValue.lessComponents : List F → List F → Bool
  | _, [] => false
  | [], _ :: _ => true
  | this :: these, other :: others => lt this other || (!lt other this && lessComponents these others)

def StateValue.lessThan (value other : StateValue F) : Bool :=
  lessComponents value.data other.data

/-- The public operations of `StateValue`. -/
inductive ValueCall (F : Type) where
  | put (idx : Int) (value : F)
  | putFloat (idx value : F)
  | putAll (value : F)
  | resize (len : Int)
  | assign (other : StateValue F)
  | assignString (text : String)
  | assignChars (text : String)
  | assignList (list : List F)
  | interpolateFrom (other : StateValue F)
  | add (other : StateValue F)
  | mul (other : StateValue F)
  | and_logic (other : StateValue F)
  | or_logic (other : StateValue F)
  | addFloat (other : F)
  | mulFloat (other : F)
  | andBool (other : Bool)
  | orBool (other : Bool)
  | clear
  | size
  | atInt64 (idx : Int)
  | atFloat (idx : F)
  | equals (other : StateValue F)
  | lessThan (other : StateValue F)
  | hash

inductive ValueAnswer (F : Type) where
  | done
  | threw (failure : Failure)
  | size (size : Nat)
  | number (value : F)
  | truth (truth : Bool)
  | hash (hash : UInt64)

namespace CachedValue

def finish (this : CachedValue F) : Except Failure (CachedValue F) → ValueAnswer F × CachedValue F
  | .error failure => (.threw failure, this)
  | .ok changed => (.done, changed)

/-- One call; `none` where the source reads outside an array. -/
def step (this : CachedValue F) : ValueCall F → Option (ValueAnswer F × CachedValue F)
  | .put idx value => some (this.finish (this.put idx value))
  | .putFloat idx value => some (this.finish (this.putFloat idx value))
  | .putAll value => some (this.finish (this.putAll value))
  | .resize len => some (this.finish (this.resize len))
  | .assign other => some (.done, new other)
  | .assignString text => some (.done, new (.ofString text))
  | .assignChars text => some (.done, new (.ofString (.ofList (text.toList.takeWhile (· ≠ '\x00')))))
  | .assignList list => some (.done, new ⟨list⟩)
  | .interpolateFrom other => (this.interpolateFrom other).map fun changed => (.done, changed)
  | .add other => some (this.finish (this.add other))
  | .mul other => some (this.finish (this.mul other))
  | .and_logic other => some (this.finish (this.and_logic other))
  | .or_logic other => some (this.finish (this.or_logic other))
  | .addFloat other => some (this.finish (this.addFloat other))
  | .mulFloat other => some (this.finish (this.mulFloat other))
  | .andBool other => some (this.finish (this.andBool other))
  | .orBool other => some (this.finish (this.orBool other))
  | .clear => some (.done, this.clear)
  | .size => some (.size this.value.size, this)
  | .atInt64 idx => some (.number (this.value.atInt64 idx), this)
  | .atFloat idx => (this.value.atFloat idx).map fun value => (.number value, this)
  | .equals other => some (.truth (this.value.equals other), this)
  | .lessThan other => some (.truth (this.value.lessThan other), this)
  | .hash => some (.hash this.hash.1, this.hash.2)

/-- The kept hash, if there is one, is that of the components. -/
def Coherent (this : CachedValue F) : Prop := this.cachedHash = 0 ∨ this.cachedHash = this.value.hash

end CachedValue

theorem StateValue.hash_ne_zero (value : StateValue F) : value.hash ≠ 0 := by
  rw [StateValue.hash]
  split
  · decide
  · assumption

namespace CachedValue

variable {this changed : CachedValue F}

/-- `hash()` answers the hash of the components exactly when the kept one is coherent. -/
theorem hash_eq_iff : this.hash.1 = this.value.hash ↔ this.Coherent := by
  rw [hash, Coherent]
  split <;> simp_all

theorem coherent_hash (coherent : this.Coherent) : this.hash.2.Coherent := by
  rw [hash]
  split
  · exact .inr rfl
  · exact coherent

omit [FloatOps F] in
theorem put_eq_ok {idx : Int} {value : F} (done : this.put idx value = .ok changed) : changed.cachedHash = 0 := by
  rw [put] at done
  split at done
  · cases done
  · split at done
    · cases done
      rfl
    · cases done

theorem resize_eq_ok {len : Int} (done : this.resize len = .ok changed) : changed.cachedHash = 0 := by
  rw [resize] at done
  split at done
  · cases done
  · cases done
    rfl

theorem putEach_succ (count : Nat) (next : Nat → F → F) :
    this.putEach (count + 1) next =
      this.putEach count next >>= fun middle => middle.put count (next count (middle.value.atInt64 count)) := by
  simp [putEach, List.range_succ]

theorem putEach_eq_ok {count : Nat} {next : Nat → F → F} (done : this.putEach count next = .ok changed) :
    changed.cachedHash = 0 ∨ changed = this := by
  cases count with
  | zero =>
    cases done
    exact .inr rfl
  | succ count =>
    rw [putEach_succ] at done
    obtain ⟨middle, _, last⟩ := bind_eq_ok.mp done
    exact .inl (put_eq_ok last)

theorem atInt64_eq {value : StateValue F} {i : Nat} (bound : i < value.data.length) :
    value.atInt64 i = value.data[i] := by
  have nonempty : value.data.length ≠ 0 := by omega
  have inside : ¬ (value.data.length : Int) ≤ i := by omega
  have natural : ¬ (i : Int) < 0 := by omega
  simp [StateValue.atInt64, nonempty, inside, natural, bound]

/-- What the loop leaves: the first components replaced, the others as they were. -/
theorem putEach_eq {count : Nat} (next : Nat → F → F) (bound : count ≤ this.value.size) :
    this.putEach count next = .ok ⟨⟨this.value.data.mapIdx fun i x => if i < count then next i x else x⟩,
      if count = 0 then this.cachedHash else 0⟩ := by
  induction count with
  | zero =>
    have same : (this.value.data.mapIdx fun _ x => x) = this.value.data := by
      apply List.ext_getElem <;> simp
    simp only [Nat.not_lt_zero, if_false, same]
    rfl
  | succ count ih =>
    have inside : count < this.value.data.length := bound
    rw [putEach_succ, ih (by omega)]
    refine bind_eq_ok.mpr ⟨_, rfl, ?_⟩
    have read : (⟨this.value.data.mapIdx fun i x => if i < count then next i x else x⟩ : StateValue F).atInt64 count =
        this.value.data[count] := by
      rw [atInt64_eq (by simpa using inside)]
      simp
    have written : (this.value.data.mapIdx fun i x => if i < count then next i x else x).set count
        (next count this.value.data[count]) =
          this.value.data.mapIdx fun i x => if i < count + 1 then next i x else x := by
      apply List.ext_getElem
      · simp
      · intro i _ second
        rw [List.getElem_set, List.getElem_mapIdx, List.getElem_mapIdx]
        grind
    rw [read]
    simp [put, new, StateValue.size, inside, written]

omit [FloatOps F] in
theorem touched {loop : Except Failure (CachedValue F)}
    (done : (do let this ← loop; return this.touch) = Except.ok changed) : changed.cachedHash = 0 := by
  obtain ⟨middle, _, last⟩ := bind_eq_ok.mp done
  cases last
  rfl

theorem add_eq_ok {other : StateValue F} (done : this.add other = .ok changed) : changed.cachedHash = 0 := by
  obtain ⟨resized, _, rest⟩ := bind_eq_ok.mp done
  exact touched rest

theorem grow_eq (this : CachedValue F) {otherSize : Nat} (limit : (otherSize : Int) ≤ maxSize) :
    ∃ hash, this.grow otherSize =
      .ok ⟨⟨this.value.data ++ List.replicate (otherSize - this.value.size) (lit 0)⟩, hash⟩ := by
  rw [grow]
  split
  · rename_i longer
    have all : this.value.data.take otherSize = this.value.data := List.take_of_length_le (Nat.le_of_lt longer)
    refine ⟨0, ?_⟩
    rw [resize, if_neg (by omega)]
    simp [new, all, StateValue.size]
  · rename_i shorter
    have none : otherSize - this.value.size = 0 := by omega
    exact ⟨this.cachedHash, by simp [none]⟩

theorem addComponents_eq (these others : List F) :
    StateValue.addComponents these others =
      (these ++ List.replicate (others.length - these.length) (lit 0)).mapIdx fun i x =>
        if inside : i < others.length then x + others[i] else x := by
  fun_induction StateValue.addComponents these others with
  | case1 these =>
    apply List.ext_getElem <;> simp
  | case2 other rest ih =>
    simp [List.replicate_succ, ih, List.mapIdx_cons]
  | case3 this these other rest ih =>
    simp [ih, List.mapIdx_cons]

/-- On the components, the operator is the one that `State::add` applies. -/
theorem add_eq {other : StateValue F} (limit : (other.size : Int) ≤ maxSize) :
    this.add other = .ok (new (this.value.add other)) := by
  obtain ⟨hash, grown⟩ := this.grow_eq limit
  refine bind_eq_ok.mpr ⟨_, grown, ?_⟩
  refine bind_eq_ok.mpr ⟨_, putEach_eq _ ?_, ?_⟩
  · simp [StateValue.size]
    omega
  · have same : (this.value.data ++ List.replicate (other.size - this.value.size) (lit 0)).mapIdx
        (fun i x => if i < other.size then x + other.atInt64 i else x) =
          StateValue.addComponents this.value.data other.data := by
      rw [addComponents_eq]
      apply List.ext_getElem
      · simp [StateValue.size]
      · intro i _ _
        rw [List.getElem_mapIdx, List.getElem_mapIdx]
        by_cases inside : i < other.data.length
        · rw [if_pos (by exact inside), dif_pos inside, atInt64_eq inside]
          rfl
        · rw [if_neg (by exact inside), dif_neg inside]
          rfl
    show Except.ok (touch _) = _
    simp only [touch, new, StateValue.add, same]

/-- What an operation may leave: no hash, the object itself, or the object with its hash kept. -/
def Leaves (this changed : CachedValue F) : Prop :=
  changed.cachedHash = 0 ∨ changed = this ∨ changed = this.hash.2

theorem Leaves.coherent (leaves : this.Leaves changed) (coherent : this.Coherent) : changed.Coherent := by
  rcases leaves with forgot | rfl | rfl
  · exact .inl forgot
  · exact coherent
  · exact coherent_hash coherent

theorem leaves_finish {result : Except Failure (CachedValue F)}
    (done : ∀ changed, result = .ok changed → changed.cachedHash = 0 ∨ changed = this) :
    this.Leaves (this.finish result).2 := by
  cases result with
  | error failure => exact .inr (.inl rfl)
  | ok changed =>
    rcases done changed rfl with forgot | same
    · exact .inl forgot
    · exact .inr (.inl same)

theorem putFloat_eq_ok {idx value : F} (done : this.putFloat idx value = .ok changed) : changed.cachedHash = 0 := by
  rw [putFloat] at done
  split at done
  · cases done
  · exact put_eq_ok done

theorem interpolateFrom_eq_some {other : StateValue F} (done : this.interpolateFrom other = some changed) :
    changed.cachedHash = 0 := by
  rw [interpolateFrom] at done
  split at done
  · obtain ⟨data, _, made⟩ := Option.bind_eq_some_iff.mp done
    cases made
    rfl
  · cases done
    rfl

/-- No operation leaves a hash that it did not find or compute. -/
theorem leaves_of_step {call : ValueCall F} {answer : ValueAnswer F}
    (ran : this.step call = some (answer, changed)) : this.Leaves changed := by
  have finished : ∀ {result : Except Failure (CachedValue F)},
      (∀ changed, result = .ok changed → changed.cachedHash = 0 ∨ changed = this) →
        some (this.finish result) = some (answer, changed) → this.Leaves changed := by
    intro result done same
    have left := leaves_finish done
    rw [Option.some.inj same] at left
    exact left
  cases call with
  | put idx value => exact finished (fun _ done => .inl (put_eq_ok done)) ran
  | putFloat idx value => exact finished (fun _ done => .inl (putFloat_eq_ok done)) ran
  | putAll value => exact finished (fun _ done => putEach_eq_ok done) ran
  | resize len => exact finished (fun _ done => .inl (resize_eq_ok done)) ran
  | add other => exact finished (fun _ done => .inl (add_eq_ok done)) ran
  | mul other => exact finished (fun _ done => .inl (touched done)) ran
  | and_logic other => exact finished (fun _ done => .inl (touched done)) ran
  | or_logic other => exact finished (fun _ done => .inl (touched done)) ran
  | addFloat other => exact finished (fun _ done => .inl (touched done)) ran
  | mulFloat other => exact finished (fun _ done => .inl (touched done)) ran
  | andBool other => exact finished (fun _ done => .inl (touched done)) ran
  | orBool other => exact finished (fun _ done => .inl (touched done)) ran
  | assign other | assignString text | assignChars text | assignList list | clear =>
    cases ran
    exact .inl rfl
  | interpolateFrom other =>
    obtain ⟨_, done, same⟩ := Option.map_eq_some_iff.mp ran
    cases same
    exact .inl (interpolateFrom_eq_some done)
  | atFloat idx =>
    obtain ⟨_, _, same⟩ := Option.map_eq_some_iff.mp ran
    cases same
    exact .inr (.inl rfl)
  | size | atInt64 idx | equals other | lessThan other =>
    cases ran
    exact .inr (.inl rfl)
  | hash =>
    cases ran
    exact .inr (.inr rfl)

theorem allSteps_hash (value : StateValue F) (calls : List (ValueCall F)) :
    AllSteps step (fun _ _ _ (changed : CachedValue F) => changed.hash.1 = changed.value.hash) (new value) calls := by
  apply allSteps_of_invariant Coherent
  · intro this call answer changed coherent ran
    have next := (leaves_of_step ran).coherent coherent
    exact ⟨hash_eq_iff.mpr next, next⟩
  · exact .inl rfl

end CachedValue

end Goap
