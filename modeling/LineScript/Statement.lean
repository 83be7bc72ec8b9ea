import LineScript.Expression

/-!
# Statements

A statement is one line of a program. The word `var` makes it an assignment and the word
`operator` an operator; every other line calls the function that its first expression names.
-/

namespace LineScript

inductive StatementKind where
  | assignment
  | operator
  | call
  deriving DecidableEq, Repr, Inhabited

namespace StatementKind

/-- The kind of a statement whose first word is `word`. Case matters. -/
def ofKeyword (word : String) : StatementKind :=
  if word = "var" then assignment
  else if word = "operator" then operator
  else call

/-- Whether the first word of a statement is one of its operands: only a call needs it. -/
def keepsKeyword : StatementKind → Bool
  | assignment => false
  | operator => false
  | call => true

def name : StatementKind → String
  | assignment => "Assignment"
  | operator => "Operator"
  | call => "FunctionCall"

end StatementKind

/-- A statement: its kind, the line it was written as, and its operands. -/
structure Statement where
  kind : StatementKind
  source : String
  expressions : List Expression
  deriving DecidableEq, Repr, Inhabited

end LineScript
