import Std.Data.TreeMap.Lemmas

/-!
# Ordered maps

A map from strings that remembers the order in which its keys were first inserted. The entries
stand in that order in an array, and an index gives the position of each key in it. Storing under
a key that is present replaces the value and keeps the position.

`Lawful` says that the index and the entries agree; every map built by `empty`, `insert` and
`ofList` is lawful.
-/

namespace LineScript

/-- Entries in order of first insertion, with the position of each key. -/
structure OrderedMap (α : Type) where
  /-- The entries, each key once, in order of first insertion. -/
  entries : Array (String × α)
  index : Std.TreeMap String Nat

namespace OrderedMap

variable {α : Type}

def empty : OrderedMap α :=
  ⟨#[], ∅⟩

instance : Inhabited (OrderedMap α) := ⟨empty⟩

def size (map : OrderedMap α) : Nat :=
  map.entries.size

def isEmpty (map : OrderedMap α) : Bool :=
  map.entries.isEmpty

def toList (map : OrderedMap α) : List (String × α) :=
  map.entries.toList

def keys (map : OrderedMap α) : List String :=
  map.toList.map Prod.fst

/-- The values in order of the first insertion of their keys. -/
def values (map : OrderedMap α) : List α :=
  map.toList.map Prod.snd

def get? (map : OrderedMap α) (key : String) : Option α := do
  let position ← map.index[key]?
  let entry ← map.entries[position]?
  return entry.2

def contains (map : OrderedMap α) (key : String) : Bool :=
  map.index.contains key

/-- Stores `value` under `key`: in its old place if the key is present, and at the end otherwise.
The value that is replaced comes with the new map. -/
def exchange (map : OrderedMap α) (key : String) (value : α) : Option α × OrderedMap α :=
  match map.index[key]? with
  | some position =>
    (map.entries[position]?.map Prod.snd,
      ⟨map.entries.setIfInBounds position (key, value), map.index⟩)
  | none => (none, ⟨map.entries.push (key, value), map.index.insert key map.entries.size⟩)

/-- The map with `value` stored under `key`. -/
def insert (map : OrderedMap α) (key : String) (value : α) : OrderedMap α :=
  (map.exchange key value).2

/-- Stores further values under the decimal numerals from `position` on. -/
def insertFrom (map : OrderedMap α) (position : Nat) : List α → OrderedMap α
  | [] => map
  | value :: rest => (map.insert position.repr value).insertFrom (position + 1) rest

/-- The positional map of a list: its values under the decimal numerals from zero on. -/
def ofList (values : List α) : OrderedMap α :=
  empty.insertFrom 0 values

/-- The index gives each key's position among the entries and nothing else. Since it gives one
position per key, the keys are pairwise distinct. -/
def Lawful (map : OrderedMap α) : Prop :=
  ∀ (key : String) (position : Nat),
    map.index[key]? = some position ↔ map.keys[position]? = some key

end OrderedMap

end LineScript
