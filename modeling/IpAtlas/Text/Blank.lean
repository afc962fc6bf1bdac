/-!
# Blank characters

The characters that separate words: the `White_Space` property of Unicode.  Fields of a table and
address texts are read without the blanks around them.

## What is here

* `isBlank` — the property.
* `trim` — a text without the blanks at its two ends.
-/

set_option autoImplicit false

namespace IpAtlas.Text

/-- Whether a character has the `White_Space` property. -/
def isBlank (c : Char) : Bool :=
  let n := c.toNat
  (0x09 ≤ n && n ≤ 0x0D) || n == 0x20 || n == 0x85 || n == 0xA0 || n == 0x1680 ||
    (0x2000 ≤ n && n ≤ 0x200A) || n == 0x2028 || n == 0x2029 || n == 0x202F || n == 0x205F ||
    n == 0x3000

/-- The characters of a text between its outermost blanks. -/
def trimChars (cs : List Char) : List Char :=
  ((cs.dropWhile isBlank).reverse.dropWhile isBlank).reverse

/-- A text without the blanks at its two ends. -/
def trim (s : String) : String := String.ofList (trimChars s.toList)

end IpAtlas.Text
