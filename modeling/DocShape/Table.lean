import DocShape.Text.Basic

/-!
# Ordered tables

A table maps text to values and keeps its entries in the order of first assignment.

* `Table.get?` looks a key up, `Table.put` assigns one: a key that is present keeps its place.
-/

namespace DocShape

abbrev Table (α : Type) := List (Text × α)

namespace Table

variable {α : Type}

def get? (table : Table α) (key : Text) : Option α := List.lookup key table

def put : Table α → Text → α → Table α
  | [], key, value => [(key, value)]
  | (k, v) :: rest, key, value =>
    if k = key then (k, value) :: rest else (k, v) :: put rest key value

def keys (table : Table α) : List Text := table.map (·.1)

/-- The table of some assignments, made in order. -/
def ofList (entries : List (Text × α)) : Table α :=
  entries.foldl (fun table entry => put table entry.1 entry.2) []

end Table

end DocShape
