import IpAtlas.Text.Hidden

/-!
# Quoted text

Messages show a foreign text between double quotes, with everything in it that could be mistaken
for something else written as an escape: the quote and the backslash, the common control
characters by their letter, and every hidden character by its number, as in `\u{301}`.

File paths are shown with the single quote escaped as well; other texts leave it alone.

## What is here

* `quoted` — a text between quotes.
* `quotedPath` — the same with the single quote escaped.
-/

set_option autoImplicit false

namespace IpAtlas.Text

/-- Whether a character is written by its number: the control characters of ASCII, and the hidden
characters outside it. -/
def isNumbered (c : Char) : Bool :=
  if c.toNat < 0x80 then c.toNat < 0x20 || c.toNat == 0x7F else isHidden c

/-- A character by its number, in lower-case hexadecimal without leading zeros. -/
def numbered (c : Char) : List Char :=
  ['\\', 'u', '{'] ++ Nat.toDigits 16 c.toNat ++ ['}']

/-- One character of a quoted text. -/
def escapeChar (single : Bool) (c : Char) : List Char :=
  if c == '\x00' then ['\\', '0']
  else if c == '\t' then ['\\', 't']
  else if c == '\r' then ['\\', 'r']
  else if c == '\n' then ['\\', 'n']
  else if c == '"' || c == '\\' || (single && c == '\'') then ['\\', c]
  else if isNumbered c then numbered c
  else [c]

/-- A text between double quotes. -/
def quoted (s : String) : String :=
  String.ofList ('"' :: s.toList.flatMap (escapeChar false) ++ ['"'])

/-- A path between double quotes: single quotes are escaped too. -/
def quotedPath (s : String) : String :=
  String.ofList ('"' :: s.toList.flatMap (escapeChar true) ++ ['"'])

end IpAtlas.Text
