import LineScript.Text.Escape

/-!
# Quoted text

`quote` writes a text between double quotes, with a backslash before every backslash and every
double quote; `unescape` reads the body of such a text. A backslash before any other character,
or at the very end, stands for itself. `closingQuote?` finds the quote that ends a body.
-/

namespace LineScript.Text

/-- The text with a backslash before each backslash and each double quote. -/
def escape (text : List Char) : List Char :=
  text.flatMap fun c => if c = '\\' ∨ c = '"' then ['\\', c] else [c]

/-- The text between double quotes, in a form that `unescape` reads back. -/
def quote (text : List Char) : List Char :=
  '"' :: (escape text ++ ['"'])

/-- The meaning of the body of a quoted text: `\"` is a double quote, `\\` is a backslash, and
everything else is itself. -/
def unescape : List Char → List Char
  | [] => []
  | c :: rest =>
    if c = '\\' then
      match rest with
      -- A lone backslash at the end has nothing to take along.
      | [] => ['\\']
      | d :: rest =>
        if d = '"' ∨ d = '\\' then d :: unescape rest else '\\' :: d :: unescape rest
    else c :: unescape rest

/-- The offset, in the text after an opening quote, of the quote that closes it: the first
unescaped one, or else the last one. -/
def closingQuote? (text : List Char) : Option Nat :=
  unescaped? '"' text <|> last? '"' text

end LineScript.Text
