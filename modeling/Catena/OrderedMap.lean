/-!
# Maps in order of insertion

A map that lists its keys in the order in which they were first inserted. Inserting a key again
replaces its value and keeps its place.
-/

namespace Catena

/-- A finite map as a list of entries. -/
structure OrderedMap (α β : Type) where
  entries : List (α × β) := []

namespace OrderedMap

variable {α β : Type} [BEq α]

/-- The value of a key. -/
def get? (m : OrderedMap α β) (key : α) : Option β :=
  m.entries.lookup key

/-- Whether a key has a value. -/
def contains (m : OrderedMap α β) (key : α) : Bool :=
  (m.get? key).isSome

/-- The keys in order. -/
def keys (m : OrderedMap α β) : List α :=
  m.entries.map (·.1)

/-- The values in the order of their keys. -/
def values (m : OrderedMap α β) : List β :=
  m.entries.map (·.2)

/-- Replaces the value of `key`, or adds an entry at the end. -/
def insertEntry (key : α) (value : β) : List (α × β) → List (α × β)
  | [] => [(key, value)]
  | entry :: rest =>
    if key == entry.1 then (entry.1, value) :: rest else entry :: insertEntry key value rest

/-- The map with `key` bound to `value`. -/
def insert (m : OrderedMap α β) (key : α) (value : β) : OrderedMap α β :=
  { entries := insertEntry key value m.entries }

end OrderedMap

end Catena
