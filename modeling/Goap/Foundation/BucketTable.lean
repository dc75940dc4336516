import Goap.Foundation.HashedList

namespace Goap.Foundation

/-- A hash table whose entries hang in one chain, those of a bucket one behind the other. A new
table has one bucket, which has room for nothing. -/
structure BucketTable (Key Value : Type) where
  nodes : List (Key × Value)
  buckets : Nat

/-- How many buckets a table gets that has no room left. -/
structure Growth where
  next : Nat → Nat
  grows : ∀ buckets, buckets < next buckets

namespace BucketTable

variable {Key Value : Type} (growth : Growth) (hash : Key → Nat) (fits : Key → Key → Bool)

def new : BucketTable Key Value := ⟨[], 1⟩

/-- Hangs an entry in front of its bucket, or in front of the chain if the bucket is empty. -/
def link (buckets : Nat) (entry : Key × Value) (nodes : List (Key × Value)) : List (Key × Value) :=
  let elsewhere (node : Key × Value) : Bool := hash node.1 % buckets != hash entry.1 % buckets
  if nodes.all elsewhere then entry :: nodes
  else nodes.takeWhile elsewhere ++ entry :: nodes.dropWhile elsewhere

def room (table : BucketTable Key Value) : Nat := if table.buckets = 1 then 0 else table.buckets

/-- Hangs the entries into another number of buckets, in the order of the chain. -/
def rehash (table : BucketTable Key Value) (buckets : Nat) : BucketTable Key Value :=
  ⟨table.nodes.foldl (fun nodes entry => link hash buckets entry nodes) [], buckets⟩

/-- Overwrites the value under a key that fits, or adds an entry, for which the table may grow. -/
def insert (probe : Key) (value : Value) (table : BucketTable Key Value) : BucketTable Key Value :=
  if table.nodes.any fun entry => fits probe entry.1 then
    { table with nodes := HashedList.insert fits probe value table.nodes }
  else
    let table := if table.nodes.length < table.room then table else table.rehash hash (growth.next table.buckets)
    { table with nodes := link hash table.buckets (probe, value) table.nodes }

def erase (probe : Key) (table : BucketTable Key Value) : BucketTable Key Value :=
  { table with nodes := HashedList.erase fits probe table.nodes }

/-- The buckets stay. -/
def clear (table : BucketTable Key Value) : BucketTable Key Value := { table with nodes := [] }

/-- A table with no more buckets than the first entry asks for. -/
def Small (table : BucketTable Key Value) : Prop := table.buckets = 1 ∨ table.buckets = growth.next 1

instance : DecidablePred (@Small Key Value growth) := fun table =>
  inferInstanceAs (Decidable (table.buckets = 1 ∨ table.buckets = growth.next 1))

variable {growth hash fits} {table : BucketTable Key Value}

theorem link_perm (buckets : Nat) (entry : Key × Value) (nodes : List (Key × Value)) :
    (link hash buckets entry nodes).Perm (entry :: nodes) := by
  unfold link
  dsimp only
  split
  · exact .refl _
  · refine List.perm_middle.trans ?_
    rw [List.takeWhile_append_dropWhile]

theorem rehash_perm (table : BucketTable Key Value) (buckets : Nat) :
    (table.rehash hash buckets).nodes.Perm table.nodes := by
  have linked : ∀ entries nodes : List (Key × Value),
      (entries.foldl (fun nodes entry => link hash buckets entry nodes) nodes).Perm (nodes ++ entries) := by
    intro entries
    induction entries with
    | nil => simp
    | cons entry rest ih =>
      intro nodes
      refine (ih _).trans ?_
      exact ((link_perm buckets entry nodes).append_right rest).trans List.perm_middle.symm
  exact linked table.nodes []

theorem insert_perm (probe : Key) (value : Value) (table : BucketTable Key Value) :
    (table.insert growth hash fits probe value).nodes.Perm (HashedList.insert fits probe value table.nodes) := by
  unfold insert
  split
  · exact .refl _
  · rename_i missing
    have absent : ∀ entry ∈ table.nodes, fits probe entry.1 = false := by simpa using missing
    rw [HashedList.insert_of_absent absent]
    dsimp only
    have appended : ∀ nodes : List (Key × Value), nodes.Perm table.nodes →
        ((probe, value) :: nodes).Perm (table.nodes ++ [(probe, value)]) := fun nodes same =>
      (same.cons _).trans (List.perm_append_singleton _ _).symm
    refine (link_perm _ _ _).trans (appended _ ?_)
    split
    · exact .refl _
    · exact rehash_perm table _

theorem insert_small (empty : table.nodes = []) (small : table.Small growth) (probe : Key) (value : Value) :
    table.insert growth hash fits probe value = ⟨[(probe, value)], growth.next 1⟩ := by
  have more := growth.grows 1
  obtain ⟨nodes, buckets⟩ := table
  subst empty
  rcases small with one | grown
  · simp only at one
    simp [insert, room, one, rehash, link]
  · simp only at grown
    have several : growth.next 1 ≠ 1 := by omega
    have positive : 0 < growth.next 1 := by omega
    simp [insert, room, grown, several, positive, link]

end BucketTable

end Goap.Foundation
