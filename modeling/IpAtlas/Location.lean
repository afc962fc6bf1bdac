import IpAtlas.Range

/-!
# Locations

What is known about the addresses of one range: the country, city and subdivisions a vendor gives
for it, whether it is known as the exit of a private network, and the range itself, so that an
answer tells how far it holds.

## What is here

* `Flag` — a question that may not have been asked.
* `Location` — the payload of a range.
* `Entry` — a location under the bounds by which it is found.
-/

set_option autoImplicit false

namespace IpAtlas

/-- The answer to a yes-or-no question, or that nobody looked. -/
inductive Flag where
  | unknown
  | yes
  | no
  deriving DecidableEq, Repr, Inhabited

namespace Flag

/-- The answer, once there is one. -/
def toBool? : Flag → Option Bool
  | unknown => none
  | yes => some true
  | no => some false

/-- The flag of a known answer. -/
def ofBool : Bool → Flag
  | true => yes
  | false => no

/-- How a flag is written. -/
def toText : Flag → String
  | unknown => "unknown"
  | yes => "true"
  | no => "false"

/-- The byte that stands for a flag in encoded locations. -/
def tag : Flag → UInt8
  | unknown => 0
  | yes => 1
  | no => 2

/-- The flag a byte stands for. -/
def ofTag? (b : UInt8) : Option Flag :=
  if b = 0 then some unknown else if b = 1 then some yes else if b = 2 then some no else none

end Flag

/-- What is known about the addresses of a span.  The span is told with it and is not checked. -/
structure Location where
  span : Span
  countryCode : Option String := none
  geonameId : Option UInt32 := none
  city : Option String := none
  mostSpecificDivision : Option String := none
  leastSpecificDivision : Option String := none
  postalCode : Option String := none
  sourceText : Option String := none
  vpn : Flag := .unknown
  deriving DecidableEq, Repr

/-- The same knowledge about another span. -/
def Location.rebind (l : Location) (span : Span) : Location := { l with span }

/-- What a database stores: the bounds it looks for, and the location it answers with. -/
structure Entry where
  span : Span
  location : Location
  deriving DecidableEq, Repr

end IpAtlas
