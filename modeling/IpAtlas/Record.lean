import IpAtlas.Location

/-!
# Lines, records and providers

A source is read as numbered lines, a line becomes a record, and the records of one provider become
its database.  A record keeps the line it came from, so that whatever is said about it later can
name the place in the source.

## What is here

* `Provider` — the name a database goes by.
* `Line` — a numbered line of a source.
* `Record` — a range with its location and its line.
-/

set_option autoImplicit false

namespace IpAtlas

/-- Names the source a database was built from; two providers of one name are one. -/
structure Provider where
  name : String
  deriving DecidableEq, Repr

namespace Provider

/-- The full vendor export. -/
def ip2location : Provider := ⟨"ip2location"⟩

/-- The free vendor export. -/
def ip2locationLite : Provider := ⟨"ip2location-lite"⟩

/-- The providers whose table layout is known. -/
def builtin : List Provider := [ip2location, ip2locationLite]

instance : ToString Provider := ⟨name⟩

end Provider

/-- A line of a source without its terminator, counted from one. -/
structure Line where
  number : Nat
  text : String
  deriving DecidableEq, Repr

/-- A line with its number in front. -/
def Line.toText (l : Line) : String := s!"{l.number}: {l.text}"

/-- A range of a source with what is known about it. -/
structure Record where
  range : Range
  location : Location
  line : Line
  deriving DecidableEq, Repr

end IpAtlas
