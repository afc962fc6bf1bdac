import IpAtlas.Layout
import IpAtlas.Lines
import IpAtlas.Overlay.Track

/-!
# Tables of private networks

A table of ranges with a column that says whether a range is the exit of a private network.  Rows
that say no, and rows that do not say, are passed over before anything else in them is looked at;
where no such column is configured every row counts.

A table is read line by line as the sweep comes to it: an unreadable row is passed over with a
remark, and a failure of the file ends the table with another.

## What is here

* `VpnLayout` — the columns.
* `VpnLayout.mark?` — a line as a mark.
* `VpnLayout.items` — a table as a source of marks.
-/

set_option autoImplicit false

namespace IpAtlas

/-- Which column of a table of private networks holds what, counted from zero. -/
structure VpnLayout where
  delimiter : UInt8 := 0x2C
  first : Nat := 0
  last : Nat := 1
  /-- The column that says whether the row counts; every row does where there is none. -/
  flag : Option Nat := some 2
  numbers : NumberFamily := .auto
  deriving DecidableEq, Repr

/-- A text with its ASCII letters in lower case. -/
def asciiLower (s : String) : String := String.ofList (s.toList.map Char.toLower)

/-- Whether a field says yes. -/
def saysYes (s : String) : Bool := s = "1" || asciiLower s = "true" || asciiLower s = "yes"

namespace VpnLayout

/-- Whether a row counts. -/
def counts (layout : VpnLayout) (fields : List String) : Bool :=
  match layout.flag with
  | none => true
  | some column => (optionalField fields (some column)).any saysYes

/-- The mark of a line, none if the row does not count. -/
def mark? (layout : VpnLayout) (line : Line) : Except ParseError (Option (Mark Flag)) := do
  let fields ← Csv.fields layout.delimiter line
  if layout.counts fields then
    let range ← (rangeField fields layout.numbers layout.first layout.last).mapError (⟨line, ·⟩)
    return some ⟨range.toSpan, .yes⟩
  else return none

/-- What a line adds to a source of marks. -/
def item? (layout : VpnLayout) (path : Path) (line : Line) : Option (Item Flag) :=
  match layout.mark? line with
  | .ok m => m.map .mark
  | .error e => some (.remark ⟨.debug, s!"{path}: skipping {e.message}"⟩)

/-- The remark that a file failed, if it did. -/
def failure? (path : Path) (source : Stream) : Option (Item Flag) :=
  source.fault.map fun e =>
    .remark ⟨.error, s!"{path}: read failed, ignoring the rest: {e.message}"⟩

/-- A table as a source of marks. -/
def items (layout : VpnLayout) (path : Path) (source : Stream) : List (Item Flag) :=
  source.lines.filterMap (layout.item? path) ++ (failure? path source).toList

end VpnLayout

end IpAtlas
