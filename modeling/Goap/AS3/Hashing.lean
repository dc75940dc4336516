import Goap.Foundation.TextEncoding
import Mathlib.Data.List.AList
import Mathlib.Data.List.Sort

namespace Goap.AS3

open Foundation

/-- A value that is not null; `other` is any that is no string, no `Boolean` and no `int`. -/
inductive Value (Other : Type) where
  | string (text : String)
  | boolean (truth : Bool)
  | int (number : Int32)
  | other (value : Other)
deriving DecidableEq

/-- What is left of a value where a `String` is expected. -/
def Value.text {Other : Type} [ToString Other] : Value Other → String
  | .string text => text
  | .boolean truth => toString truth
  | .int number => toString number.toInt
  | .other value => toString value

/-- A dynamic `Object`. The language leaves the order open in which `for` goes over the
properties; one that was set to null is still there. -/
abbrev Object (Other : Type) := AList fun _ : String => Option (Value Other)

/-- `object[name]`, where null is `none`. -/
def Object.at? {Other : Type} (object : Object Other) (name : String) : Option (Value Other) :=
  (object.lookup name).join

/-- A `ByteArray`. Nothing here moves the position beyond the end. -/
structure ByteArray where
  bytes : List UInt8
  position : Nat
  inside : position ≤ bytes.length

namespace ByteArray

def new : ByteArray := ⟨[], 0, Nat.le_refl 0⟩

/-- Writing goes over the bytes after the position, and beyond the end. -/
def write (this : ByteArray) (written : List UInt8) : ByteArray where
  bytes := this.bytes.take this.position ++ written ++ this.bytes.drop (this.position + written.length)
  position := this.position + written.length
  inside := by
    have inside := this.inside
    simp only [List.length_append, List.length_take]
    omega

def writeUTFBytes (this : ByteArray) (value : String) : ByteArray := this.write (utf8 value.toList)

def writeByte (this : ByteArray) (value : UInt8) : ByteArray := this.write [value]

/-- `position = 0`. -/
def rewind (this : ByteArray) : ByteArray := ⟨this.bytes, 0, Nat.zero_le _⟩

/-- `position = length`. -/
def toEnd (this : ByteArray) : ByteArray := ⟨this.bytes, this.bytes.length, Nat.le_refl _⟩

/-- `length = position`. -/
def cut (this : ByteArray) : ByteArray where
  bytes := this.bytes.take this.position
  position := this.position
  inside := by simp [this.inside]

def done (this : ByteArray) : List UInt8 := this.bytes.take this.position

theorem done_write (this : ByteArray) (written : List UInt8) : (this.write written).done = this.done ++ written := by
  have length : (this.bytes.take this.position ++ written).length = this.position + written.length := by
    simp [this.inside]
  exact List.take_left' length

theorem cut_eq (this : ByteArray) {other : ByteArray} (same : this.done = other.done) : this.cut = other.cut := by
  have length : ∀ array : ByteArray, array.done.length = array.position := fun array => by simp [done, array.inside]
  have position : this.position = other.position := by rw [← length this, same, length other]
  simp only [cut, ByteArray.mk.injEq]
  exact ⟨same, position⟩

/-- What `readUnsignedInt` answers until no bytes are available, big-endian. -/
def readUnsignedInts : List UInt8 → List UInt32
  | a :: b :: c :: d :: rest =>
    (a.toUInt32 <<< 24 ||| b.toUInt32 <<< 16 ||| c.toUInt32 <<< 8 ||| d.toUInt32) :: readUnsignedInts rest
  | _ => []

end ByteArray

/-- A name and its value, on the way to be sorted. -/
structure Hashing (Other : Type) where
  name : String
  value : Value Other
deriving DecidableEq

namespace Hashing

variable {Other : Type}

/-- How `sortOn("name")` compares. -/
def sortsBefore (first second : Hashing Other) : Prop := utf16 first.name.toList ≤ utf16 second.name.toList

instance sortsBefore.decidable : DecidableRel (@sortsBefore Other) := fun first second =>
  inferInstanceAs (Decidable (utf16 first.name.toList ≤ utf16 second.name.toList))

def getSortedPairs (object : Object Other) : List (Hashing Other) :=
  (object.entries.filterMap fun entry => entry.2.map fun val => ⟨entry.1, val⟩).insertionSort sortsBefore

theorem mem_getSortedPairs {object : Object Other} {obj : Hashing Other} :
    obj ∈ getSortedPairs object ↔ object.at? obj.name = some obj.value := by
  obtain ⟨name, value⟩ := obj
  have found : object.at? name = some value ↔ (⟨name, some value⟩ : Σ _ : String, Option (Value Other)) ∈ object.entries := by
    rw [Object.at?, Option.join_eq_some_iff, ← Option.mem_def, AList.mem_lookup_iff]
  rw [found, getSortedPairs, List.mem_insertionSort, List.mem_filterMap]
  constructor
  · rintro ⟨⟨name', value'⟩, entry, paired⟩
    obtain ⟨val, rfl, made⟩ := Option.map_eq_some_iff.mp paired
    cases made
    exact entry
  · intro entry
    exact ⟨_, entry, rfl⟩

theorem names_ne (object : Object Other) :
    (getSortedPairs object).Pairwise fun first second => first.name ≠ second.name := by
  refine (List.perm_insertionSort _ _).symm.pairwise (List.pairwise_filterMap.mpr ?_) fun different => different.symm
  refine (List.nodupKeys_iff_pairwise.mp object.nodupKeys).imp ?_
  intro first second different obj paired obj' paired'
  obtain ⟨_, _, rfl⟩ := Option.map_eq_some_iff.mp paired
  obtain ⟨_, _, rfl⟩ := Option.map_eq_some_iff.mp paired'
  exact different

theorem sorted_names (object : Object Other) :
    (getSortedPairs object).Pairwise fun first second => utf16 first.name.toList < utf16 second.name.toList := by
  have total : Std.Total (@sortsBefore Other) := ⟨fun first second => le_total _ _⟩
  have transitive : IsTrans _ (@sortsBefore Other) := ⟨fun _ _ _ => le_trans⟩
  have ordered := List.pairwise_insertionSort (@sortsBefore Other)
    (object.entries.filterMap fun entry => entry.2.map fun val => ⟨entry.1, val⟩)
  refine (ordered.and (names_ne object)).imp ?_
  rintro first second ⟨below, different⟩
  refine lt_of_le_of_ne below fun same => different ?_
  exact String.toList_injective (utf16_injective same)

/-- The seed of `hash_AP`, which also stands for a hash of 0. -/
def defaultSeed : UInt32 := 0xAAAAAAAB

/-- An integer as a `Number`: rounded to 53 bits, to even where it lies halfway. -/
def toNumber (value : ℤ) : ℤ :=
  let unit := 1 <<< (value.natAbs.log2 + 1 - 53)
  let whole := value.natAbs / unit
  let rest := value.natAbs % unit
  value.sign * ((if unit < 2 * rest ∨ unit = 2 * rest ∧ whole % 2 = 1 then whole + 1 else whole) * unit : ℕ)

/-- `hash >> count`: the hash is taken for an `int`. -/
def shiftRight (hash : UInt32) (count : Int32) : Int32 := hash.toInt32 >>> count

/-- One step of the loop of `hash_AP`. The product is a `Number`, of which the last 32 bits count. -/
def mix (hash tmp : UInt32) (i : Nat) : UInt32 :=
  if i % 2 = 0 then
    hash ^^^ ((hash <<< 7) ^^^ UInt32.ofInt (toNumber (tmp.toNat * (shiftRight hash 3).toInt)))
  else hash ^^^ ~~~(((hash <<< 11) + tmp) ^^^ (shiftRight hash 5).toUInt32)

def mixAll (hash : UInt32) (i : Nat) : List UInt32 → UInt32
  | [] => hash
  | tmp :: rest => mixAll (mix hash tmp i) (i + 1) rest

/-- Zeros up to a whole number of words. -/
def pad (bytes : ByteArray) : ByteArray :=
  Nat.repeat (·.writeByte 0) (3 &&& (4 - (bytes.bytes.length &&& 3))) bytes.toEnd

def hash_AP (bytes : ByteArray) (seed : UInt32) : UInt32 × ByteArray :=
  let bytes := pad bytes
  let hash := mixAll seed 0 (ByteArray.readUnsignedInts bytes.bytes)
  (if hash = 0 then defaultSeed else hash, bytes.toEnd)

section

variable [ToString Other]

/-- What `hashObject_AP` hands over to `hash_AP`; `_bytes` is the static array as earlier
calls have left it. -/
def written (_bytes : ByteArray) (o : Object Other) : ByteArray :=
  ((getSortedPairs o).foldl (fun bytes obj => (bytes.writeUTFBytes obj.name).writeUTFBytes obj.value.text)
    _bytes.rewind).cut

def hashObject_AP (_bytes : ByteArray) (o : Object Other) : UInt32 × ByteArray := hash_AP (written _bytes o) defaultSeed

def entries (object : Object Other) : List (String × String) :=
  (getSortedPairs object).map fun obj => (obj.name, obj.value.text)

def texts (object : Object Other) : List (List Char) :=
  (entries object).flatMap fun entry => [entry.1.toList, entry.2.toList]

theorem hash_AP_ne_zero (bytes : ByteArray) (seed : UInt32) : (hash_AP bytes seed).1 ≠ 0 := by
  simp only [hash_AP]
  split
  · decide
  · assumption

theorem done_foldl (pairs : List (Hashing Other)) (bytes : ByteArray) :
    (pairs.foldl (fun bytes obj => (bytes.writeUTFBytes obj.name).writeUTFBytes obj.value.text) bytes).done =
      bytes.done ++ utf8 ((pairs.map fun obj => (obj.name, obj.value.text)).flatMap fun entry =>
        [entry.1.toList, entry.2.toList]).flatten := by
  induction pairs generalizing bytes with
  | nil => exact (List.append_nil _).symm
  | cons obj rest ih =>
    rw [List.foldl_cons, ih, ByteArray.writeUTFBytes, ByteArray.writeUTFBytes, ByteArray.done_write,
      ByteArray.done_write]
    simp [utf8_append]

theorem bytes_written (_bytes : ByteArray) (o : Object Other) : (written _bytes o).bytes = utf8 (texts o).flatten :=
  done_foldl (getSortedPairs o) _bytes.rewind

/-- Nothing is left of what was in the static array. -/
theorem written_eq (_bytes other : ByteArray) (o : Object Other) : written _bytes o = written other o :=
  ByteArray.cut_eq _ ((bytes_written _bytes o).trans (bytes_written other o).symm)

theorem mem_entries {object : Object Other} {name text : String} :
    (name, text) ∈ entries object ↔ (object.at? name).map Value.text = some text := by
  rw [entries, List.mem_map, Option.map_eq_some_iff]
  constructor
  · rintro ⟨obj, member, same⟩
    cases same
    exact ⟨obj.value, mem_getSortedPairs.mp member, rfl⟩
  · rintro ⟨value, found, rfl⟩
    exact ⟨⟨name, value⟩, mem_getSortedPairs.mpr found, rfl⟩

theorem entries_eq_iff {object other : Object Other} : entries object = entries other ↔
    ∀ name, (object.at? name).map Value.text = (other.at? name).map Value.text := by
  constructor
  · intro same name
    apply Option.ext
    intro text
    rw [← mem_entries, ← mem_entries, same]
  · intro same
    let before (first second : String × String) : Prop := utf16 first.1.toList < utf16 second.1.toList
    have : Std.Irrefl before := ⟨fun _ => lt_irrefl _⟩
    have : Std.Antisymm before := ⟨fun _ _ below above => absurd above below.asymm⟩
    have sorted : ∀ object : Object Other, (entries object).Pairwise before :=
      fun object => List.pairwise_map.mpr (sorted_names object)
    apply (sorted object).eq_of_mem_iff (sorted other)
    rintro ⟨name, text⟩
    rw [mem_entries, mem_entries, same]

theorem texts_append {entries others : List (String × String)} {tail : List (List Char)}
    (longer : (others.flatMap fun entry => [entry.1.toList, entry.2.toList]) =
      (entries.flatMap fun entry => [entry.1.toList, entry.2.toList]) ++ tail) :
    ∃ more, others = entries ++ more ∧ tail = more.flatMap fun entry => [entry.1.toList, entry.2.toList] := by
  induction entries generalizing others with
  | nil => exact ⟨others, rfl, longer.symm⟩
  | cons entry entries ih =>
    cases others with
    | nil => cases longer
    | cons entry' others =>
      simp only [List.flatMap_cons, List.cons_append, List.nil_append, List.cons.injEq, String.toList_inj] at longer
      obtain ⟨name, value, rest⟩ := longer
      obtain ⟨more, rfl, tails⟩ := ih rest
      exact ⟨more, by rw [Prod.ext name value, List.cons_append], tails⟩

theorem eq_of_texts_eq {entries others : List (String × String)}
    (same : (entries.flatMap fun entry => [entry.1.toList, entry.2.toList]) =
      others.flatMap fun entry => [entry.1.toList, entry.2.toList]) : entries = others := by
  obtain ⟨more, rfl, nothing⟩ := texts_append (same.symm.trans (List.append_nil _).symm)
  cases more with
  | nil => exact (List.append_nil entries).symm
  | cons entry more => cases nothing

theorem texts_eq_iff {object other : Object Other} : texts object = texts other ↔
    ∀ name, (object.at? name).map Value.text = (other.at? name).map Value.text :=
  ⟨fun same => entries_eq_iff.mp (eq_of_texts_eq same), fun same => by rw [texts, texts, entries_eq_iff.mpr same]⟩

end

end Hashing

end Goap.AS3
