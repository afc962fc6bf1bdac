/-!
# Unsigned decimal numbers

Numbers in tables are runs of ASCII digits, with an optional plus sign in front and any number of
leading zeros.  A number that does not lie below the bound its column allows is refused like one
with a foreign character in it.

## What is here

* `digitsValue?` — the value of a run of digits.
* `unsigned?` — the number a text spells, if it lies below a bound.
-/

set_option autoImplicit false

namespace IpAtlas.Text

/-- The value of a character as a decimal digit. -/
def digit? (c : Char) : Option Nat :=
  if '0' ≤ c ∧ c ≤ '9' then some (c.toNat - '0'.toNat) else none

/-- The value of a run of decimal digits after a prefix worth `acc`. -/
def digitsFrom? (acc : Nat) : List Char → Option Nat
  | [] => some acc
  | c :: cs => (digit? c).bind fun d => digitsFrom? (10 * acc + d) cs

/-- The value of a run of one or more decimal digits. -/
def digitsValue? : List Char → Option Nat
  | [] => none
  | cs => digitsFrom? 0 cs

/-- The number below `bound` that a text spells. -/
def unsigned? (bound : Nat) (s : String) : Option Nat :=
  let value? := match s.toList with
    | '+' :: cs => digitsValue? cs
    | cs => digitsValue? cs
  value?.filter (· < bound)

end IpAtlas.Text
