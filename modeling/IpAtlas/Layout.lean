import IpAtlas.Bounds
import IpAtlas.Csv
import IpAtlas.Text.Blank

/-!
# Table layouts

A layout tells which column of a delimited table holds what.  With it a line is read as a record:
the two bounds are required and must bound a range, and every other field is taken if its column is
there and says something.  A blank column or a lone hyphen says nothing.  Country codes are put in
upper case, as far as they are ASCII.

## What is here

* `Layout` — the columns; `Layout.full` and `Layout.lite` are those of the built-in providers.
* `requiredField`, `optionalField` — the columns of a line.
* `LineReader` — how a line of some format becomes a record; `Layout.reader` is that of a table and
  `LineReader.singleAddress` that of a list of addresses.
-/

set_option autoImplicit false

namespace IpAtlas

/-- Which column of a table holds what, counted from zero. -/
structure Layout where
  delimiter : UInt8 := 0x2C
  first : Nat := 0
  last : Nat := 1
  numbers : NumberFamily := .auto
  countryCode : Option Nat := some 2
  geonameId : Option Nat := none
  city : Option Nat := some 5
  mostSpecificDivision : Option Nat := some 4
  leastSpecificDivision : Option Nat := none
  postalCode : Option Nat := some 8
  deriving DecidableEq, Repr

namespace Layout

/-- The layout of the full vendor export. -/
def full : Layout := {}

/-- The layout of the free vendor export, which has no postal codes. -/
def lite : Layout := { postalCode := none }

/-- The layout of a built-in provider. -/
def ofProvider? (p : Provider) : Option Layout :=
  if p = .ip2location then some full
  else if p = .ip2locationLite then some lite
  else none

end Layout

/-- The text of a column that must say something. -/
def requiredField (fields : List String) (column : Nat) (name : String) :
    Except ParseError.Reason String :=
  match (fields[column]?).map Text.trim with
  | some text => if text = "" then .error (.missingField name column) else .ok text
  | none => .error (.missingField name column)

/-- The text of a column, if it is there and says something. -/
def optionalField (fields : List String) (column : Option Nat) : Option String := do
  let text := Text.trim (← fields[← column]?)
  if text = "" ∨ text = "-" then none else some text

/-- The range whose bounds stand in two columns. -/
def rangeField (fields : List String) (numbers : NumberFamily) (first last : Nat) :
    Except ParseError.Reason Range := do
  let lower ← requiredField fields first "start"
  let upper ← requiredField fields last "end"
  let (a, b) ← (Bounds.read numbers lower upper).mapError .bounds
  match Range.ofBounds? a b with
  | some range => return range
  | none => throw (.range ⟨a, b⟩)

/-- The number of a place, which is refused if it is not one. -/
def geonameField (fields : List String) (column : Option Nat) :
    Except ParseError.Reason (Option UInt32) :=
  match optionalField fields column with
  | none => .ok none
  | some text =>
    match Text.unsigned? UInt32.size text with
    | some n => .ok (some (UInt32.ofNat n))
    | none => .error (.geonameId text)

/-- A text with its ASCII letters in upper case. -/
def asciiUpper (s : String) : String := String.ofList (s.toList.map Char.toUpper)

/-- How a line of some format is read, with the source text kept on the location or not. -/
abbrev LineReader := Bool → Line → Except ParseError Record

namespace Layout

/-- What the fields of a line say. -/
def record (layout : Layout) (keepSource : Bool) (line : Line) (fields : List String) :
    Except ParseError.Reason Record := do
  let range ← rangeField fields layout.numbers layout.first layout.last
  let geonameId ← geonameField fields layout.geonameId
  let location : Location :=
    { span := range.toSpan
      countryCode := (optionalField fields layout.countryCode).map asciiUpper
      geonameId
      city := optionalField fields layout.city
      mostSpecificDivision := optionalField fields layout.mostSpecificDivision
      leastSpecificDivision := optionalField fields layout.leastSpecificDivision
      postalCode := optionalField fields layout.postalCode
      sourceText := if keepSource then some line.text else none }
  return ⟨range, location, line⟩

/-- The lines of a table. -/
def reader (layout : Layout) : LineReader := fun keepSource line => do
  let fields ← Csv.fields layout.delimiter line
  (layout.record keepSource line fields).mapError (⟨line, ·⟩)

end Layout

/-- The lines of a list of addresses, each a range of its own. -/
def LineReader.singleAddress : LineReader := fun _ line =>
  match Address.ofText? line.text with
  | some a => .ok ⟨Range.single a, { span := ⟨a, a⟩ }, line⟩
  | none => .error ⟨line, .other "bad ip"⟩

end IpAtlas
