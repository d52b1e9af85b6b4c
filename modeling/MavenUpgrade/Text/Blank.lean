/-!
# Blank characters and trimming

The characters with the Unicode property `White_Space`, and the removal of blanks at the two
ends of a text. Only the characters of this property count as blank: a zero-width space or a
byte order mark does not.
-/

namespace MavenUpgrade.Text

/-- A character is blank when it has the property `White_Space`. -/
def isBlank (c : Char) : Bool :=
  let n := c.toNat
  (0x09 ≤ n && n ≤ 0x0D) || n == 0x20 || n == 0x85 || n == 0xA0 || n == 0x1680 ||
    (0x2000 ≤ n && n ≤ 0x200A) || n == 0x2028 || n == 0x2029 || n == 0x202F || n == 0x205F ||
    n == 0x3000

/-- A text without the blanks it begins with. -/
def trimStart (cs : List Char) : List Char :=
  cs.dropWhile isBlank

/-- A text without the blanks it ends with. -/
def trimEnd (cs : List Char) : List Char :=
  (cs.reverse.dropWhile isBlank).reverse

/-- A text without the blanks at its two ends. -/
def trim (cs : List Char) : List Char :=
  trimEnd (trimStart cs)

/-- The text without the blanks at its two ends, for strings. -/
def trimmed (s : String) : String :=
  String.ofList (trim s.toList)

end MavenUpgrade.Text
