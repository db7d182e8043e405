import EditorDocs.Text.Basic
/-!
# Ordered tables

A table maps keys to values and remembers the order in which the keys first came. Putting a value
under a key that is there replaces the value and leaves the key in its place; a new key goes to
the end.
-/

namespace EditorDocs

/-- Keys with their values, in the order in which the keys first came. -/
abbrev Table (κ α : Type) := List (κ × α)

namespace Table

variable {κ α : Type} [DecidableEq κ]

/-- The value under a key. -/
def get? (key : κ) : Table κ α → Option α
  | [] => none
  | (k, v) :: rest => if k = key then some v else get? key rest

/-- The table with `value` under `key`. -/
def put (key : κ) (value : α) : Table κ α → Table κ α
  | [] => [(key, value)]
  | (k, v) :: rest => if k = key then (k, value) :: rest else (k, v) :: put key value rest

/-- The table holds the key. -/
def has (key : κ) (t : Table κ α) : Bool := (t.get? key).isSome

/-- The keys, in order. -/
def keys (t : Table κ α) : List κ := t.map Prod.fst

/-- The table that arises when the pairs are put one after the other. -/
def ofPairs (pairs : List (κ × α)) : Table κ α := pairs.foldl (fun t (k, v) => t.put k v) []

end Table

end EditorDocs
