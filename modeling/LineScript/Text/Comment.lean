/-!
# Inline comments

A colon starts a comment unless a backslash escapes it, and it is escaped exactly when the run
of backslashes directly before it has odd length.
-/

namespace LineScript.Text

/-- The offset of the first colon after an even run of backslashes, where the text starts at
`offset` and directly follows `run` backslashes. -/
def commentFrom (run offset : Nat) : List Char → Option Nat
  | [] => none
  | c :: rest =>
    if c = ':' then
      if run % 2 = 0 then some offset else commentFrom 0 (offset + 1) rest
    else if c = '\\' then commentFrom (run + 1) (offset + 1) rest
    else commentFrom 0 (offset + 1) rest

/-- The offset at which a comment starts in a token, if it holds one. -/
def comment? (text : List Char) : Option Nat :=
  commentFrom 0 0 text

end LineScript.Text
