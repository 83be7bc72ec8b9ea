import LineScript.OrderedMap.Basic
import LineScript.Statement
import LineScript.Text.Visible

/-!
# Values

A variable holds a string, a mapping from strings to values, a procedure, which is a function
written in the language, or a primitive, which is a function of the host. `display` is the text
under which a value is printed.

Equality of values is structural: mappings are equal when they have equal keys with equal values
in the same order, procedures when their names and bodies agree, and primitives when they are the
same registration.
-/

namespace LineScript

/-- A function written in the language: a name and the statements that a call runs. -/
structure Procedure where
  name : String
  body : List Statement
  deriving DecidableEq, Repr, Inhabited

/-- A function of the host: its name and the number of its registration. -/
structure Primitive where
  name : String
  id : Nat
  deriving DecidableEq, Repr, Inhabited

/-- A description of a primitive that shows its name and hides its registration. -/
def Primitive.describe (primitive : Primitive) : String :=
  "NativeFunction \x7b name: " ++ Text.escapedText primitive.name ++ ", .. \x7d"

inductive Value where
  | string (text : String)
  | mapping (map : OrderedMap Value)
  | procedure (procedure : Procedure)
  | primitive (primitive : Primitive)
  deriving Inhabited

inductive ValueType where
  | string
  | mapping
  | procedure
  | primitive
  deriving DecidableEq, Repr, Inhabited

/-- The name of a type in messages. -/
def ValueType.name : ValueType → String
  | string => "string"
  | mapping => "mapping"
  | procedure => "function"
  | primitive => "native function"

namespace Value

def type : Value → ValueType
  | string _ => .string
  | mapping _ => .mapping
  | procedure _ => .procedure
  | primitive _ => .primitive

mutual

/-- The text under which a value is printed. -/
def display : Value → String
  | string text => text
  | mapping ⟨⟨entries⟩, _⟩ => "\x7b " ++ ", ".intercalate (displayEntries entries) ++ " \x7d"
  | procedure f => "<function " ++ f.name ++ ">"
  | primitive f => "<native function " ++ f.name ++ ">"

def displayEntries : List (String × Value) → List String
  | [] => []
  | (key, value) :: rest => (key ++ ": " ++ display value) :: displayEntries rest

end

mutual

def same : Value → Value → Bool
  | string a, string b => a == b
  | mapping ⟨⟨entries⟩, index⟩, mapping ⟨⟨entries'⟩, index'⟩ =>
    sameEntries entries entries' && index.toList == index'.toList
  | procedure f, procedure g => f == g
  | primitive f, primitive g => f == g
  | _, _ => false

/-- Whether two sequences of entries have equal keys and equal values position by position. -/
def sameEntries : List (String × Value) → List (String × Value) → Bool
  | [], [] => true
  | (key, value) :: rest, (key', value') :: rest' =>
    key == key' && same value value' && sameEntries rest rest'
  | _, _ => false

end

instance : BEq Value := ⟨same⟩

end Value

end LineScript
