import IpAtlas.Error
import IpAtlas.Text.Decimal

/-!
# Range bounds in two notations

Tables give the bounds of a range as addresses or as whole numbers.  A dot or a colon tells an
address; the two bounds must be written alike.  The family of a pair of numbers is either fixed for
the table or follows from the upper one: IPv4 if it fits in 32 bits, IPv6 otherwise.

The bounds are read as they stand; whether they bound a range is for the caller to check.

## What is here

* `NumberFamily` — what numbers mean in a table.
* `Bounds.read` — the two addresses.
-/

set_option autoImplicit false

namespace IpAtlas

/-- The family of range bounds that are written as numbers. -/
inductive NumberFamily where
  /-- IPv4 if the upper bound fits in 32 bits, IPv6 otherwise. -/
  | auto
  | v4
  | v6
  deriving DecidableEq, Repr, Inhabited

namespace NumberFamily

/-- The families with the names they go by, in the order in which they are listed. -/
def named : List (String × NumberFamily) := [("auto", auto), ("v4", v4), ("v6", v6)]

/-- The family of a pair of numbers with the given upper one. -/
def choose (numbers : NumberFamily) (upper : Nat) : Family :=
  match numbers with
  | auto => if upper < Family.v4.size then .v4 else .v6
  | v4 => .v4
  | v6 => .v6

end NumberFamily

namespace Bounds

/-- Whether a bound is written as an address. -/
def looksLikeAddress (s : String) : Bool := s.toList.any fun c => c = '.' || c = ':'

/-- A bound that is written as an address. -/
def readAddress (s : String) : Except Fault Address :=
  match Address.ofText? s with
  | some a => .ok a
  | none => .error (.address s)

/-- A bound that is written as a number. -/
def readNumber (s : String) : Except Fault Nat :=
  match Text.unsigned? Family.v6.size s with
  | some n => .ok n
  | none => .error (.number s)

/-- The address of a family with a given number. -/
def place (family : Family) (n : Nat) : Except Fault Address :=
  match Address.ofNat? family n with
  | some a => .ok a
  | none => .error (.exceedsV4 n)

/-- The addresses two bounds spell. -/
def read (numbers : NumberFamily) (first last : String) : Except Fault (Address × Address) :=
  match looksLikeAddress first, looksLikeAddress last with
  | true, true => do return (← readAddress first, ← readAddress last)
  | false, false => do
    let lower ← readNumber first
    let upper ← readNumber last
    let family := numbers.choose upper
    return (← place family lower, ← place family upper)
  | _, _ => .error (.mixed first last)

end Bounds

end IpAtlas
