/-!
# Expressions

An expression is one operand of a statement: a reference to a variable, or a literal text. It
keeps the text it was written as beside its meaning.
-/

namespace LineScript

inductive Expression where
  /-- The variable called `name`, written as `source`. -/
  | reference (source name : String)
  /-- The text `value`, written as `source`. -/
  | literal (source value : String)
  deriving DecidableEq, Repr, Inhabited

namespace Expression

def source : Expression → String
  | reference source _ => source
  | literal source _ => source

/-- The name of the variable, or the literal text. -/
def value : Expression → String
  | reference _ name => name
  | literal _ value => value

/-- The name of the expression's kind in a listing. -/
def kindName : Expression → String
  | reference _ _ => "VariableReference"
  | literal _ _ => "Constant"

end Expression

end LineScript
