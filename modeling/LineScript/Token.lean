import LineScript.Text.Blank
import LineScript.Text.Quoted

/-!
# Tokens

A line is read as a sequence of tokens with blanks between them. A double quote that a later
double quote can close opens a quoted token; anything else is a bare token, which runs to the
next blank. A quoted token needs no blank after it.
-/

namespace LineScript

open Text

/-- A word of a line: text between double quotes, or a run of characters without blanks. -/
inductive Token where
  /-- The quoted token with this text between its quotes. -/
  | quoted (body : List Char)
  | bare (text : List Char)
  deriving DecidableEq, Repr, Inhabited

namespace Token

/-- The characters of a line that the token covers, its quotes included. -/
def text : Token → List Char
  | quoted body => '"' :: (body ++ ['"'])
  | bare text => text

/-- The characters of the token without its quotes. -/
def body : Token → List Char
  | quoted body => body
  | bare text => text

/-- The token that starts with the character `c`, which is not blank, where `rest` is what
follows `c` in the line. -/
def leading (c : Char) (rest : List Char) : Token :=
  match if c = '"' then closingQuote? rest else none with
  | some length => quoted (rest.take length)
  | none => bare (c :: rest.takeWhile fun d => !isBlank d)

/-- The tokens of a line after its first `skip` characters. -/
def scanAfter : (skip : Nat) → List Char → List Token
  | _, [] => []
  | skip + 1, _ :: rest => scanAfter skip rest
  | 0, c :: rest =>
    if isBlank c then scanAfter 0 rest
    else
      let token := leading c rest
      token :: scanAfter (token.text.length - 1) rest

def scan (line : List Char) : List Token :=
  scanAfter 0 line

end Token

end LineScript
