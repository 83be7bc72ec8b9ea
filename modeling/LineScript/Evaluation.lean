import LineScript.Environment
import LineScript.Fault

/-!
# Evaluation of expressions

An expression stands for a value: a literal for its text, a reference for what the variable
holds. Where a name is needed, the value has to be a string. The target of an assignment is a
name too, except that a reference to a variable that does not exist yet names that variable.
-/

namespace LineScript.Expression

/-- The value that an expression stands for. -/
def eval (expression : Expression) (env : Environment) : Except Fault Value :=
  match expression with
  | literal _ value => .ok (.string value)
  | reference _ name =>
    match env.get? name with
    | some value => .ok value
    | none => .error (.unboundVariable name)

/-- The name that an expression stands for. -/
def evalName (expression : Expression) (env : Environment) : Except Fault String :=
  match expression.eval env with
  | .ok (.string name) => .ok name
  | .ok value => .error (.notAName value.type)
  | .error fault => .error fault

/-- The name of the variable that an assignment to the expression stores into. -/
def evalTarget (expression : Expression) (env : Environment) : Except Fault String :=
  match expression with
  | reference _ name => if env.contains name then expression.evalName env else .ok name
  | literal _ _ => expression.evalName env

/-- The values that a list of expressions stand for; the first fault counts. -/
def evalAll (env : Environment) : List Expression → Except Fault (List Value)
  | [] => .ok []
  | expression :: rest => do
    let value ← expression.eval env
    let values ← evalAll env rest
    return value :: values

end LineScript.Expression
