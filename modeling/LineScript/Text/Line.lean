import LineScript.Text.Blank

/-!
# Statement lines

A newline or a semicolon ends a statement, wherever it stands: no quote protects it. `pieces`
cuts a text at its terminators and `lines` keeps the trimmed pieces that are not blank.
-/

namespace LineScript.Text

def isTerminator (c : Char) : Bool :=
  c == '\n' || c == ';'

/-- The pieces of a text between its terminators, where `current` holds, in reverse, the part
of the first piece that has been read already. -/
def piecesFrom (current : List Char) : List Char → List (List Char)
  | [] => [current.reverse]
  | c :: rest =>
    if isTerminator c then current.reverse :: piecesFrom [] rest
    else piecesFrom (c :: current) rest

/-- The pieces of a text between its terminators; `n` terminators leave `n + 1` pieces. -/
def pieces (text : List Char) : List (List Char) :=
  piecesFrom [] text

/-- The statement lines of a text: its pieces, trimmed, without the blank ones. -/
def lines (text : List Char) : List (List Char) :=
  ((pieces text).map trim).filter (fun line => !line.isEmpty)

end LineScript.Text
