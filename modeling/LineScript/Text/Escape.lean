/-!
# Escapes and offsets

A backslash takes the character after it along, whatever that character is. `unescaped?` finds
the first occurrence of a character that no backslash takes along, reading from the left;
`last?` finds the last occurrence, escaped or not. Both answer with an offset in characters.
-/

namespace LineScript.Text

/-- The offset of the first unescaped `target`, where the text starts at `offset`. -/
def unescapedFrom (target : Char) (offset : Nat) : List Char → Option Nat
  | [] => none
  | c :: rest =>
    if c = target then some offset
    else if c = '\\' then
      match rest with
      | [] => none
      | _ :: rest => unescapedFrom target (offset + 2) rest
    else unescapedFrom target (offset + 1) rest

/-- The offset of the first `target` that a reading from the left meets when each backslash
takes the next character along. -/
def unescaped? (target : Char) (text : List Char) : Option Nat :=
  unescapedFrom target 0 text

/-- The offset of the last `target`, where the text starts at `offset` and `found` is the
answer for what stands before it. -/
def lastFrom (target : Char) (offset : Nat) (found : Option Nat) : List Char → Option Nat
  | [] => found
  | c :: rest => lastFrom target (offset + 1) (if c = target then some offset else found) rest

def last? (target : Char) (text : List Char) : Option Nat :=
  lastFrom target 0 none text

end LineScript.Text
