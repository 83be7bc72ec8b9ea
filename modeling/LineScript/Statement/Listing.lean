import LineScript.Statement

/-!
# Listings

The listing of a program shows what it was read as: a line for each statement with its kind,
below it a line for each of its expressions, and a blank line at the end.
-/

namespace LineScript

/-- The line of an expression in a listing: source, kind, and value. -/
def Expression.listing (expression : Expression) : String :=
  "|  " ++ expression.source ++ ": " ++ expression.kindName ++ " (" ++ expression.value ++ ")\n"

namespace Statement

/-- The lines of a statement in a listing: source and kind, then its expressions. -/
def listing (statement : Statement) : String :=
  statement.source ++ ": " ++ statement.kind.name ++ "\n" ++
    String.join (statement.expressions.map Expression.listing)

def listAll (statements : List Statement) : String :=
  String.join (statements.map listing) ++ "\n"

end Statement

end LineScript
