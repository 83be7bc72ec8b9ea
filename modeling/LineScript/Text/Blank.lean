/-!
# Blank characters

`isBlank` is the Unicode property `White_Space` as a table of twenty-five code points, and
`trim` removes blank characters from both ends of a text.
-/

namespace LineScript.Text

/-- Whether a character has the Unicode property `White_Space`. -/
def isBlank (c : Char) : Bool :=
  let n := c.toNat
  (9 ≤ n && n ≤ 13) || n == 0x20 || n == 0x85 || n == 0xA0 || n == 0x1680 ||
    (0x2000 ≤ n && n ≤ 0x200A) || n == 0x2028 || n == 0x2029 || n == 0x202F || n == 0x205F ||
    n == 0x3000

/-- The text without the blank characters at its end. -/
def trimRight (text : List Char) : List Char :=
  (text.reverse.dropWhile isBlank).reverse

/-- The text without the blank characters at either end. -/
def trim (text : List Char) : List Char :=
  trimRight (text.dropWhile isBlank)

end LineScript.Text
