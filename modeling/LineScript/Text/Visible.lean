/-!
# Visible characters

Some characters show nothing by themselves. `escapedText` writes a text so that every character in
it can be seen.
-/

namespace LineScript.Text

/-- The ranges of controls, of blanks but for the space, of format characters, of marks that go with
the character before them, and of private and unassigned characters. Marks that belong to a single
script are left out, and so are unassigned characters between assigned ones. -/
def invisibleRanges : List (Nat × Nat) :=
  [(0x00, 0x1F), (0x7F, 0xA0), (0xAD, 0xAD), (0x300, 0x36F), (0x483, 0x489), (0x600, 0x605),
    (0x61C, 0x61C), (0x6DD, 0x6DD), (0x70F, 0x70F), (0x1680, 0x1680), (0x180B, 0x180F),
    (0x1AB0, 0x1AFF), (0x1DC0, 0x1DFF), (0x2000, 0x200F), (0x2028, 0x202F), (0x205F, 0x206F),
    (0x20D0, 0x20FF), (0x3000, 0x3000), (0x302A, 0x302F), (0x3099, 0x309A), (0xE000, 0xF8FF),
    (0xFE00, 0xFE0F), (0xFE20, 0xFE2F), (0xFEFF, 0xFEFF), (0xFFF0, 0xFFFB), (0xFFFE, 0xFFFF),
    (0xE0000, 0x10FFFF)]

def isInvisible (c : Char) : Bool :=
  invisibleRanges.any fun range => range.1 ≤ c.toNat && c.toNat ≤ range.2

/-- The text between double quotes, where a backslash marks what is not itself: a letter for some
controls, and a hexadecimal number between braces for other invisible characters. -/
def escapedText (text : String) : String :=
  let escaped := text.toList.flatMap fun c =>
    if c = '"' ∨ c = '\\' then ['\\', c]
    else if c = '\n' then ['\\', 'n']
    else if c = '\t' then ['\\', 't']
    else if c = '\r' then ['\\', 'r']
    else if c = '\x00' then ['\\', '0']
    else if isInvisible c then ['\\', 'u', '\x7b'] ++ Nat.toDigits 16 c.toNat ++ ['\x7d']
    else [c]
  "\"" ++ String.ofList escaped ++ "\""

end LineScript.Text
