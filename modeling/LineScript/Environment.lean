import LineScript.OrderedMap.Lemmas
import LineScript.Value

/-!
# Environments

The one table of variables that a program reads and writes. There are no scopes: the body of a
function uses the table of its caller. The names stand in order of definition.
-/

namespace LineScript

/-- The variables and their values, in order of definition. -/
structure Environment where
  table : OrderedMap Value
  /-- The index of the table is that of its entries. -/
  lawful : table.Lawful

namespace Environment

def empty : Environment :=
  ⟨OrderedMap.empty, OrderedMap.lawful_empty⟩

instance : Inhabited Environment := ⟨empty⟩

def get? (env : Environment) (name : String) : Option Value :=
  env.table.get? name

def contains (env : Environment) (name : String) : Bool :=
  env.table.contains name

/-- The environment in which a variable holds a value; a new variable comes last. -/
def assign (env : Environment) (name : String) (value : Value) : Environment :=
  ⟨env.table.insert name value, OrderedMap.lawful_insert env.lawful name value⟩

/-- The names of the variables in order of definition. -/
def names (env : Environment) : List String :=
  env.table.keys

def toList (env : Environment) : List (String × Value) :=
  env.table.toList

def size (env : Environment) : Nat :=
  env.table.size

def isEmpty (env : Environment) : Bool :=
  env.table.isEmpty

end Environment

end LineScript
