import IpAtlas.Address.Text

/-!
# Spans and ranges

A `Span` is any two addresses.  Spans come from outside — a stored location, a secondary range
built by hand — and promise nothing.  A `Range` is a span whose bounds belong to one family and do
not cross; records hold ranges, and cutting a range yields ranges.

## What is here

* `Span`, `Span.contains`, `Span.toText`.
* `Range`, `Range.ofBounds?` — the checked form.
* `Range.upTo`, `Range.onwards` — the two parts of a range on either side of a cut.
-/

set_option autoImplicit false

namespace IpAtlas

/-- Two addresses that bound a closed interval, if they bound anything. -/
structure Span where
  first : Address
  last : Address
  deriving DecidableEq, Repr

namespace Span

/-- The bounds belong to one family and do not cross. -/
def Valid (s : Span) : Prop := s.first.family = s.last.family ∧ s.first ≤ s.last

instance (s : Span) : Decidable s.Valid :=
  inferInstanceAs (Decidable (s.first.family = s.last.family ∧ s.first ≤ s.last))

/-- Whether an address lies between the bounds in the order of all addresses. -/
def contains (s : Span) (a : Address) : Bool := s.first ≤ a ∧ a ≤ s.last

/-- The bounds with a hyphen between them. -/
def toText (s : Span) : String := s!"{s.first}-{s.last}"

instance : ToString Span := ⟨toText⟩

end Span

/-- A closed, non-empty interval of addresses of one family. -/
structure Range extends Span where
  valid : toSpan.Valid
  deriving DecidableEq, Repr

namespace Range

/-- The range with the given bounds, if they bound one. -/
def ofBounds? (first last : Address) : Option Range :=
  if h : (Span.mk first last).Valid then some ⟨⟨first, last⟩, h⟩ else none

/-- The range of a single address. -/
def single (a : Address) : Range := ⟨⟨a, a⟩, rfl, Nat.le_refl _⟩

/-- The family of both bounds. -/
def family (r : Range) : Family := r.first.family

/-- How far the last address lies from the first. -/
def extent (r : Range) : Nat := r.last.value - r.first.value

/-- A cut falls inside a range when it leaves something on both sides. -/
def CutBy (r : Range) (a : Address) : Prop := r.first < a ∧ a ≤ r.last

instance (r : Range) (a : Address) : Decidable (r.CutBy a) :=
  inferInstanceAs (Decidable (r.first < a ∧ a ≤ r.last))

theorem CutBy.family_eq {r : Range} {a : Address} (h : r.CutBy a) : a.family = r.first.family :=
  Address.family_eq_of_between r.valid.1 (Nat.le_of_lt h.1) h.2

theorem CutBy.value_lt {r : Range} {a : Address} (h : r.CutBy a) : r.first.value < a.value :=
  (Address.lt_iff_value h.family_eq.symm).1 h.1

theorem CutBy.value_le {r : Range} {a : Address} (h : r.CutBy a) : a.value ≤ r.last.value :=
  (Address.le_iff_value (h.family_eq.trans r.valid.1)).1 h.2

/-- The part of a range below a cut. -/
def upTo (r : Range) (a : Address) (h : r.CutBy a) : Range :=
  ⟨⟨r.first, a.before⟩, h.family_eq.symm, by
    have := h.value_lt
    rw [Address.le_iff_value (show r.first.family = a.before.family from h.family_eq.symm)]
    simp only [Address.before]; omega⟩

/-- The part of a range from a cut on. -/
def onwards (r : Range) (a : Address) (h : r.CutBy a) : Range :=
  ⟨⟨a, r.last⟩, h.family_eq.trans r.valid.1, h.2⟩

theorem extent_onwards_lt {r : Range} {a : Address} (h : r.CutBy a) :
    (r.onwards a h).extent < r.extent := by
  have h1 := h.value_lt
  have h2 := h.value_le
  simp only [onwards, extent]; omega

end Range

end IpAtlas
