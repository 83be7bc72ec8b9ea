import LineScript.Statement
import LineScript.Text.Comment
import LineScript.Text.Line
import LineScript.Token

/-!
# Reading statements

`Statement.parse` reads one line as at most one statement and `Statement.parseAll` reads a text
line by line. A quoted token is the literal that its body stands for. A bare token is cut where a
comment starts, which also ends the line; what is left is a reference after a dollar sign, the
rest of the token after a backslash, and itself otherwise.
-/

namespace LineScript

open Text

/-- Why a line is not a statement. -/
inductive ParseError where
  /-- No kind of expression can be written as `token`, which stands in `line`. -/
  | notAnExpression (token line : String)
  deriving DecidableEq, Repr, Inhabited

def ParseError.message : ParseError → String
  | notAnExpression token line => "unable to parse token '" ++ token ++ "' in '" ++ line ++ "'"

namespace Expression

/-- The expression that a bare text without comment stands for; the empty text is none. -/
def ofBare? (text : List Char) : Option Expression :=
  match text with
  | [] => none
  | '$' :: name => some (reference (String.ofList text) (String.ofList name))
  | '\\' :: value => some (literal (String.ofList text) (String.ofList value))
  | _ => some (literal (String.ofList text) (String.ofList text))

/-- The expression that a bare text stands for, as a part of `line`. -/
def ofBare (line : String) (text : List Char) : Except ParseError Expression :=
  match ofBare? text with
  | some expression => .ok expression
  | none => .error (.notAnExpression (String.ofList text) line)

/-- The literal that a quoted text with this body stands for. -/
def ofQuoted (body : List Char) : Expression :=
  literal (String.ofList (Token.quoted body).text) (String.ofList (unescape body))

/-- The expressions that the tokens of a line stand for, up to the first comment. -/
def ofTokens (line : String) : List Token → Except ParseError (List Expression)
  | [] => .ok []
  | .quoted body :: rest => do
    let expressions ← ofTokens line rest
    return ofQuoted body :: expressions
  | .bare text :: rest =>
    match comment? text with
    | some 0 => .ok []
    | some length => do
      let expression ← ofBare line (text.take length)
      return [expression]
    | none => do
      let expression ← ofBare line text
      let expressions ← ofTokens line rest
      return expression :: expressions

end Expression

namespace Statement

/-- The statement made of the tokens of `line`, which start with `first`. -/
def ofTokens (line : String) (first : Token) (rest : List Token) :
    Except ParseError Statement := do
  let kind := StatementKind.ofKeyword (String.ofList first.text)
  let expressions ← Expression.ofTokens line (if kind.keepsKeyword then first :: rest else rest)
  return ⟨kind, line, expressions⟩

/-- The statement that a trimmed line stands for. A line that starts with a colon is a comment
and a line without tokens is blank. -/
def ofTrimmed (line : List Char) : Except ParseError (Option Statement) :=
  if line.head? = some ':' then .ok none
  else
    match Token.scan line with
    | [] => .ok none
    | first :: rest => do
      let statement ← ofTokens (String.ofList line) first rest
      return some statement

/-- The statements that a sequence of lines stands for. -/
def ofLines : List (List Char) → Except ParseError (List Statement)
  | [] => .ok []
  | line :: rest => do
    let statement ← ofTrimmed (trim line)
    let statements ← ofLines rest
    return statement.toList ++ statements

/-- Reads one line, which may hold anything, as at most one statement. -/
def parse (line : String) : Except ParseError (Option Statement) :=
  ofTrimmed (trim line.toList)

/-- Reads a source text as the statements of its lines. -/
def parseAll (source : String) : Except ParseError (List Statement) :=
  ofLines (lines source.toList)

end Statement

end LineScript
