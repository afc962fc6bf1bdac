import IpAtlas.Json.Decode

/-!
# JSON forms of locations

Addresses are strings, a span is an object with its two bounds, and a location is an object with its
span and whatever else is known.  A span that is read is not checked.

## What is here

* `Form.address`, `Form.span`, `Form.flag`, `Form.provider`, `Form.location` — reading.
* `Form.ofAddress`, `Form.ofSpan`, `Form.ofFlag`, `Form.ofProvider`, `Form.ofLocation` — writing.
-/

set_option autoImplicit false

namespace IpAtlas.Form

open Json (Decoder Fault Slot Shape)

/-! ## Reading -/

/-- An address. -/
def address : Decoder Address := fun ctx draft => do
  match Address.ofText? (← Decoder.string ctx draft) with
  | some a => return a
  | none => throw (.mismatch Address.textFault)

/-- A value that must have been read by now. -/
def given {α : Type} (name : String) : Option α → Except Fault α
  | some x => .ok x
  | none => .error (.missing name)

/-- A field of a structure, from how it is read and where it is put. -/
def field {π α : Type} (name : String) (decode : Decoder α) (put : α → π → π)
    (needed : Bool) : Slot π :=
  { name, needed, read := fun ctx draft => (decode ctx draft).map put }

/-- The shape of a span, whose bounds are read one by one. -/
def spanShape : Shape (Option Address × Option Address) Span where
  title := "struct IpRange"
  fields :=
    [field "start" address (fun a p => (some a, p.2)) true,
      field "end" address (fun a p => (p.1, some a)) true]
  blank := (none, none)
  build p := do return ⟨← given "start" p.1, ← given "end" p.2⟩

/-- A span. -/
def span : Decoder Span := spanShape.decoder

/-- The flags with the names they go by, in the order in which they are listed. -/
def flags : List (String × Flag) :=
  [Flag.unknown, Flag.yes, Flag.no].map fun flag => (flag.toText, flag)

/-- A flag. -/
def flag : Decoder Flag := Decoder.variant flags

/-- A provider. -/
def provider : Decoder Provider := fun ctx draft => (Decoder.string ctx draft).map Provider.mk

/-- A location that is being read: its span, and what it is once there is one. -/
structure LocationParts where
  span : Option Span := none
  location : Span → Location := fun span => { span }

/-- A field that changes a location. -/
def locationField {α : Type} (name : String) (decode : Decoder α)
    (put : α → Location → Location) (needed : Bool) : Slot LocationParts :=
  field name decode (fun x p => { p with location := fun span => put x (p.location span) }) needed

/-- A field of a location that is a string. -/
def textField (name : String) (put : Option String → Location → Location) :
    Slot LocationParts :=
  locationField name (Decoder.optional Decoder.string) put true

/-- The number of a place. -/
def placeNumber : Decoder UInt32 := fun ctx draft =>
  (Decoder.natural UInt32.size "u32" ctx draft).map UInt32.ofNat

/-- The shape of a location.  Only its flag may be left out at the end of an array. -/
def locationShape : Shape LocationParts Location where
  title := "struct InformationPayload"
  fields :=
    [field "range" span (fun s p => { p with span := some s }) true,
      textField "country_code" (fun x l => { l with countryCode := x }),
      locationField "geoname_id" (Decoder.optional placeNumber)
        (fun x l => { l with geonameId := x }) true,
      textField "city" (fun x l => { l with city := x }),
      textField "most_specific_subdivision" (fun x l => { l with mostSpecificDivision := x }),
      textField "least_specific_subdivision" (fun x l => { l with leastSpecificDivision := x }),
      textField "postal_code" (fun x l => { l with postalCode := x }),
      textField "original_line" (fun x l => { l with sourceText := x }),
      locationField "vpn" flag (fun x l => { l with vpn := x }) false]
  blank := {}
  build p := do return p.location (← given "range" p.span)

/-- A location. -/
def location : Decoder Location := locationShape.decoder

/-! ## Writing -/

/-- An address. -/
def ofAddress (a : Address) : Json := .text a.toText

/-- A span. -/
def ofSpan (s : Span) : Json :=
  .object [("start", ofAddress s.first), ("end", ofAddress s.last)]

/-- A flag. -/
def ofFlag (flag : Flag) : Json := .text flag.toText

/-- A provider. -/
def ofProvider (p : Provider) : Json := .text p.name

/-- A member for something that is known, none for something that is not. -/
def known {α : Type} (name : String) (write : α → Json) : Option α → List (String × Json)
  | some x => [(name, write x)]
  | none => []

/-- A location.  What is not known is left out. -/
def ofLocation (l : Location) : Json :=
  .object ([("range", ofSpan l.span)] ++
    known "country_code" .text l.countryCode ++
    known "geoname_id" (fun n => .ofNat n.toNat) l.geonameId ++
    known "city" .text l.city ++
    known "most_specific_subdivision" .text l.mostSpecificDivision ++
    known "least_specific_subdivision" .text l.leastSpecificDivision ++
    known "postal_code" .text l.postalCode ++
    known "original_line" .text l.sourceText ++
    [("vpn", ofFlag l.vpn)])

end IpAtlas.Form
