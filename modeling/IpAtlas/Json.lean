import IpAtlas.Binary64

/-!
# JSON values

The values of JSON, and how they are written: without blanks, the members of an object in their
order, and in strings only what must be escaped.

Numbers remember how they were meant.  A number without fraction and exponent is whole as long as
it fits in 64 bits; every other one is a floating-point number, even if its value is whole.

## What is here

* `Json.Number`, `Json` — the values.
* `Json.toText` — writing.
* `Json.member?` — a member of an object.
-/

set_option autoImplicit false

namespace IpAtlas

/-- A number of JSON. -/
inductive Json.Number where
  /-- A whole number below 2⁶⁴. -/
  | natural (n : Nat)
  /-- The opposite of a positive whole number up to 2⁶³. -/
  | negative (n : Nat)
  | float (x : Binary64)
  deriving DecidableEq, Repr

/-- The text of a number. -/
def Json.Number.toText : Json.Number → String
  | natural n => toString n
  | negative n => s!"-{n}"
  | float x => x.toText

/-- A value of JSON. -/
inductive Json where
  | null
  | bool (b : Bool)
  | number (n : Json.Number)
  | text (s : String)
  | array (elements : List Json)
  | object (members : List (String × Json))
  deriving Repr

namespace Json

/-! ## Writing -/

/-- One character of a string. -/
def escapeChar (c : Char) : List Char :=
  if c = '"' || c = '\\' then ['\\', c]
  else if c = '\n' then ['\\', 'n']
  else if c = '\r' then ['\\', 'r']
  else if c = '\t' then ['\\', 't']
  else if c = '\x08' then ['\\', 'b']
  else if c = '\x0C' then ['\\', 'f']
  else if c.toNat < 0x20 then
    ['\\', 'u', '0', '0'] ++ Nat.toDigits 16 (c.toNat / 16) ++ Nat.toDigits 16 (c.toNat % 16)
  else [c]

/-- A string between quotes. -/
def quote (s : String) : String := String.ofList ('"' :: s.toList.flatMap escapeChar ++ ['"'])

mutual

/-- The text of a value. -/
def toText : Json → String
  | null => "null"
  | bool b => if b then "true" else "false"
  | number n => n.toText
  | text s => quote s
  | array elements => "[" ++ String.intercalate "," (elementTexts elements) ++ "]"
  | object members => "\x7b" ++ String.intercalate "," (memberTexts members) ++ "\x7d"

/-- The texts of the elements of an array. -/
def elementTexts : List Json → List String
  | [] => []
  | x :: xs => x.toText :: elementTexts xs

/-- The texts of the members of an object. -/
def memberTexts : List (String × Json) → List String
  | [] => []
  | (name, x) :: rest => (quote name ++ ":" ++ x.toText) :: memberTexts rest

end

/-! ## Building and looking -/

/-- A whole number. -/
def ofNat (n : Nat) : Json := number (.natural n)

/-- A value, or null where there is none. -/
def ofOption {α : Type} (write : α → Json) : Option α → Json
  | some x => write x
  | none => null

/-- A member of an object. -/
def member? (name : String) : Json → Option Json
  | object members => members.lookup name
  | _ => none

end Json

end IpAtlas
