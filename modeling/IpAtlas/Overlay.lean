import IpAtlas.Error

/-!
# Overlays

Secondary ranges are laid over the ranges of a provider: a list of the exits of private networks,
for instance.  A `Mark` is one secondary range with its data.  Marks come in collections, and where
several collections cover an address a `Policy` says whose data counts.  `Rules` say what becomes of
a location under a mark, and under none.

## What is here

* `Mark`, `Mark.ofBounds`.
* `Policy`, `Policy.select`.
* `Rules`, `Rules.privateNetwork`, `Rules.label`, `Rules.apply`.
-/

set_option autoImplicit false

namespace IpAtlas

/-- A secondary range with its data.  Its span is not checked. -/
structure Mark (α : Type) where
  span : Span
  data : α
  deriving DecidableEq, Repr

/-- A mark whose bounds must bound a range. -/
def Mark.ofBounds {α : Type} (first last : Address) (data : α) : Except Error (Mark α) :=
  (Range.ofBounds first last).map fun range => ⟨range.toSpan, data⟩

/-- Whose data counts where several collections are laid over each other. -/
inductive Policy where
  /-- Any collection marks an address; the first of them gives the data. -/
  | union
  /-- Any collection marks an address; the last of them gives the data. -/
  | priority
  /-- Only all collections together mark an address; the first of them gives the data. -/
  | intersection
  deriving DecidableEq, Repr, Inhabited

namespace Policy

/-- The policies with the names they go by, in the order in which they are listed. -/
def named : List (String × Policy) :=
  [("union", union), ("priority", priority), ("intersection", intersection)]

/-- The name of a policy. -/
def toText : Policy → String
  | union => "union"
  | priority => "priority"
  | intersection => "intersection"

/-- The data that counts, given what each collection has for an address. -/
def select {α : Type} (policy : Policy) (active : List (Option α)) : Option α :=
  match policy with
  | union => (active.filterMap id).head?
  | priority => (active.filterMap id).getLast?
  | intersection => if active.all Option.isSome then (active.filterMap id).head? else none

end Policy

/-- What becomes of a location under a mark and under none, for a part of its range. -/
structure Rules (α : Type) where
  onMark : Location → α → Span → Location
  onNone : Location → Span → Location

namespace Rules

/-- The location of a part of a range, given the data that counts there.  Whatever the rules do, it
is bound to that part. -/
def apply {α : Type} (rules : Rules α) (location : Location) (data : Option α) (span : Span) :
    Location :=
  let rewritten := match data with
    | some data => rules.onMark location data span
    | none => rules.onNone location span
  rewritten.rebind span

/-- Marks tell the exits of private networks; what they do not cover is none. -/
def privateNetwork : Rules Flag where
  onMark location flag span := { location with vpn := flag, span }
  onNone location span := { location with vpn := .no, span }

/-- Marks tell a label that is shown, with the part it covers, in place of the city. -/
def label : Rules String where
  onMark location text span := { location with city := some s!"{text}@{span}" }
  onNone location _ := { location with city := some "-" }

end Rules

end IpAtlas
