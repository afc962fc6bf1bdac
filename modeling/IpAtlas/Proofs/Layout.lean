import IpAtlas.Layout
import IpAtlas.Proofs.Order
import IpAtlas.Proofs.Result
import IpAtlas.Proofs.Text
import Mathlib.Algebra.Group.Nat.Defs
import Mathlib.Data.List.Forall2

/-!
# Lines of a table as records

What a line becomes depends on its fields alone, and on each of them only through the text between
its blanks.  Here it is told from the columns which lines are records, what is in the record, and
which fault the others have: the first one in the order in which the columns are looked at.

Columns may be named twice, and may lie behind the last field.  A column that must be filled is
missing then, and any other says nothing.

## What is here

* `Fields.Filled`, `Fields.Says` — what a column holds, and what it says.
* `requiredField_eq_ok_iff`, `optionalField_eq_some_iff`, `geonameField_eq_ok_iff` — the columns.
* `Capital`, `asciiUpper_eq_iff` — upper case.
* `Layout.Reads`, `Layout.record_eq_ok_iff` — the record of a line.
* `Layout.Refusal`, `Layout.record_eq_error_iff` — why there is none.
* `Layout.exists_reads_iff` — which lines are records.
* `Layout.reader_true` — what it does to keep the source text.
* `Layout.reader_exact` — all of them together.
-/

set_option autoImplicit false

namespace IpAtlas

open Text (Trimmed Spells)

/-! ## Columns -/

namespace Fields

/-- A column is there, and `text` is what is between its blanks, if anything is. -/
def Filled (fields : List String) (column : Nat) (text : String) : Prop :=
  text ≠ "" ∧ ∃ field, fields[column]? = some field ∧ Trimmed field.toList text.toList

/-- A column that may be left open is named and filled, and not with a hyphen. -/
def Says (fields : List String) (column : Option Nat) (text : String) : Prop :=
  text ≠ "-" ∧ ∃ c, column = some c ∧ Filled fields c text

theorem filled_iff {fields : List String} {column : Nat} {text : String} :
    Filled fields column text ↔
      (fields[column]?).map Text.trim = some text ∧ text ≠ "" := by
  rw [Filled, and_comm, Option.map_eq_some_iff]
  simp only [Text.trim_eq_iff]

/-- A column is filled with one text at most. -/
theorem Filled.eq {fields : List String} {column : Nat} {s t : String}
    (hs : Filled fields column s) (ht : Filled fields column t) : s = t :=
  Option.some_inj.1 ((filled_iff.1 hs).1.symm.trans (filled_iff.1 ht).1)

theorem Says.eq {fields : List String} {column : Option Nat} {s t : String}
    (hs : Says fields column s) (ht : Says fields column t) : s = t := by
  obtain ⟨-, c, rfl, hs⟩ := hs
  obtain ⟨-, d, hd, ht⟩ := ht
  obtain rfl := Option.some_inj.1 hd
  exact hs.eq ht

end Fields

open Fields (Filled Says filled_iff)

variable {fields : List String} {column : Option Nat}

theorem requiredField_eq_ok_iff {column : Nat} {name text : String} :
    requiredField fields column name = .ok text ↔ Filled fields column text := by
  rw [requiredField, filled_iff]
  cases (fields[column]?).map Text.trim with
  | none => simp
  | some s =>
    simp only [Option.some.injEq]
    split_ifs with h
    · simp only [false_iff]
      rintro ⟨rfl, hne⟩
      exact hne h
    · constructor
      · rintro ⟨rfl⟩
        exact ⟨rfl, h⟩
      · rintro ⟨rfl, -⟩
        rfl

theorem requiredField_eq_error_iff {column : Nat} {name : String} {reason : ParseError.Reason} :
    requiredField fields column name = .error reason ↔
      reason = .missingField name column ∧ ∀ text, ¬ Filled fields column text := by
  simp only [← @requiredField_eq_ok_iff fields column name]
  rw [requiredField]
  cases (fields[column]?).map Text.trim with
  | none => simp [eq_comm]
  | some s =>
    simp only
    split_ifs with h
    · simp [eq_comm]
    · simp

theorem optionalField_eq_some_iff {text : String} :
    optionalField fields column = some text ↔ Says fields column text := by
  simp only [optionalField, Option.bind_eq_bind, Option.bind_eq_some_iff, Says, filled_iff]
  constructor
  · rintro ⟨c, rfl, field, hfield, h⟩
    split_ifs at h with hnone
    obtain rfl := Option.some_inj.1 h
    rw [not_or] at hnone
    exact ⟨hnone.2, c, rfl, by rw [hfield, Option.map_some], hnone.1⟩
  · rintro ⟨hhyphen, c, rfl, hmap, hne⟩
    obtain ⟨field, hfield, rfl⟩ := Option.map_eq_some_iff.1 hmap
    exact ⟨c, rfl, field, hfield, if_neg (not_or.2 ⟨hne, hhyphen⟩)⟩

theorem optionalField_eq_none_iff :
    optionalField fields column = none ↔ ∀ text, ¬ Says fields column text := by
  rw [Option.eq_none_iff_forall_ne_some]
  simp only [ne_eq, optionalField_eq_some_iff]

/-- **The number of a place** is none if its column says nothing, and else what it spells. -/
theorem geonameField_eq_ok_iff {id : Option UInt32} :
    geonameField fields column = .ok id ↔
      ((∀ text, ¬ Says fields column text) ∧ id = none) ∨
        ∃ text n, Says fields column text ∧ Spells text (UInt32.toNat n) ∧ id = some n := by
  simp only [← optionalField_eq_some_iff]
  rw [geonameField]
  cases optionalField fields column with
  | none => simp [eq_comm]
  | some s =>
    simp only [Option.some.injEq, forall_eq', false_and, false_or]
    cases hread : Text.unsigned? UInt32.size s with
    | none =>
      have hlarge := Text.unsigned?_eq_none_iff.1 hread
      simp only [reduceCtorEq, false_iff]
      rintro ⟨text, n, rfl, hspells, -⟩
      exact absurd (hlarge _ hspells) (Nat.not_le.2 n.toNat_lt)
    | some n =>
      obtain ⟨hspells, hlt⟩ := Text.unsigned?_eq_some_iff.1 hread
      have hn : (UInt32.ofNat n).toNat = n := UInt32.toNat_ofNat_of_lt hlt
      constructor
      · rintro ⟨rfl⟩
        exact ⟨s, _, rfl, hn.symm ▸ hspells, rfl⟩
      · rintro ⟨text, m, rfl, hm, rfl⟩
        obtain rfl := hspells.eq hm
        simp only [UInt32.ofNat_toNat]

/-- The number of a place is refused if it is none below 2³². -/
theorem geonameField_eq_error_iff {reason : ParseError.Reason} :
    geonameField fields column = .error reason ↔
      ∃ text, Says fields column text ∧ (∀ n, Spells text n → 2 ^ 32 ≤ n) ∧
        reason = .geonameId text := by
  simp only [← optionalField_eq_some_iff]
  rw [geonameField]
  cases optionalField fields column with
  | none => simp
  | some s =>
    simp only [Option.some.injEq, exists_eq_left']
    have hnone : Text.unsigned? UInt32.size s = none ↔ ∀ n, Spells s n → 2 ^ 32 ≤ n :=
      Text.unsigned?_eq_none_iff
    rw [← hnone]
    cases Text.unsigned? UInt32.size s with
    | none => simp [eq_comm]
    | some n => simp

/-! ## Upper case -/

/-- A character in upper case, if it is a small letter of ASCII, and else the same. -/
def Capital (c d : Char) : Prop :=
  'a' ≤ c ∧ c ≤ 'z' ∧ d.toNat + 32 = c.toNat ∨ ¬ ('a' ≤ c ∧ c ≤ 'z') ∧ d = c

/-- Upper case moves the small letters of ASCII, and no other character. -/
theorem toNat_toUpper (c : Char) :
    c.toUpper.toNat = if 97 ≤ c.toNat ∧ c.toNat ≤ 122 then c.toNat - 32 else c.toNat := by
  by_cases h : 97 ≤ c.toNat ∧ c.toNat ≤ 122
  · have hsmall : 'a'.val ≤ c.val ∧ c.val ≤ 'z'.val := h
    -- the distance between the two alphabets is added modulo 2³²
    have hval : (c.val + ('A'.val - 'a'.val)).toNat = (c.toNat + 4294967264) % 4294967296 :=
      UInt32.toNat_add _ _
    have hupper : c.toUpper = ⟨c.val + ('A'.val - 'a'.val), _⟩ := dif_pos hsmall
    rw [if_pos h, hupper]
    exact hval.trans (by omega)
  · have hsmall : ¬ ('a'.val ≤ c.val ∧ c.val ≤ 'z'.val) := h
    have hsame : c.toUpper = c := dif_neg hsmall
    rw [if_neg h, hsame]

theorem capital_iff {c d : Char} : Capital c d ↔ c.toUpper = d := by
  have hlower : 'a' ≤ c ↔ 97 ≤ c.toNat := Iff.rfl
  have hupper : c ≤ 'z' ↔ c.toNat ≤ 122 := Iff.rfl
  rw [Capital, ← Char.toNat_inj, ← Char.toNat_inj, toNat_toUpper, hlower, hupper]
  split_ifs <;> omega

/-- **Every character is put in upper case by itself.** -/
theorem asciiUpper_eq_iff {s t : String} :
    asciiUpper s = t ↔ List.Forall₂ Capital s.toList t.toList := by
  have hcapital : Capital = fun c d => c.toUpper = d := by
    funext c d
    exact propext capital_iff
  rw [hcapital, ← List.forall₂_map_left_iff, List.forall₂_eq_eq_eq, asciiUpper,
    ← String.toList_inj, String.toList_ofList]

/-! ## Records -/

namespace Layout

variable {layout : Layout} {keepSource : Bool} {line : Line}

/-- The two columns of the bounds are filled, and with the bounds of a range. -/
def Bounded (layout : Layout) (fields : List String) (range : Range) : Prop :=
  ∃ lower upper, Filled fields layout.first lower ∧ Filled fields layout.last upper ∧
    Bounds.read layout.numbers lower upper = .ok (range.first, range.last)

/-- What a line says, column by column.  A column says what is between its blanks, and a column that
says nothing leaves its place in the record empty. -/
structure Reads (layout : Layout) (keepSource : Bool) (line : Line) (fields : List String)
    (record : Record) : Prop where
  bounds : layout.Bounded fields record.range
  span : record.location.span = record.range.toSpan
  countryCode : ∀ code, record.location.countryCode = some code ↔
    ∃ text, Says fields layout.countryCode text ∧ List.Forall₂ Capital text.toList code.toList
  geonameId : ((∀ text, ¬ Says fields layout.geonameId text) ∧ record.location.geonameId = none) ∨
    ∃ text n, Says fields layout.geonameId text ∧ Spells text (UInt32.toNat n) ∧
      record.location.geonameId = some n
  city : ∀ text, record.location.city = some text ↔ Says fields layout.city text
  mostSpecificDivision : ∀ text, record.location.mostSpecificDivision = some text ↔
    Says fields layout.mostSpecificDivision text
  leastSpecificDivision : ∀ text, record.location.leastSpecificDivision = some text ↔
    Says fields layout.leastSpecificDivision text
  postalCode : ∀ text, record.location.postalCode = some text ↔ Says fields layout.postalCode text
  sourceText : record.location.sourceText = if keepSource then some line.text else none
  vpn : record.location.vpn = .unknown
  line : record.line = line

/-- Why the columns of the bounds do not bound a range. -/
inductive Unbounded (layout : Layout) (fields : List String) : ParseError.Reason → Prop where
  | first (missing : ∀ text, ¬ Filled fields layout.first text) :
    Unbounded layout fields (.missingField "start" layout.first)
  | last {lower : String} (hlower : Filled fields layout.first lower)
    (missing : ∀ text, ¬ Filled fields layout.last text) :
    Unbounded layout fields (.missingField "end" layout.last)
  | unread {lower upper : String} {fault : Bounds.Fault}
    (hlower : Filled fields layout.first lower) (hupper : Filled fields layout.last upper)
    (hread : Bounds.read layout.numbers lower upper = .error fault) :
    Unbounded layout fields (.bounds fault)
  | crossed {lower upper : String} {a b : Address}
    (hlower : Filled fields layout.first lower) (hupper : Filled fields layout.last upper)
    (hread : Bounds.read layout.numbers lower upper = .ok (a, b))
    (hcrossed : ¬ (a.family = b.family ∧ a ≤ b)) :
    Unbounded layout fields (.range ⟨a, b⟩)

/-- Why a line is no record.  The bounds come first, and nothing is wrong with any other column but
that of the number of the place. -/
inductive Refusal (layout : Layout) (fields : List String) : ParseError.Reason → Prop where
  | bounds {reason : ParseError.Reason} (h : layout.Unbounded fields reason) :
    Refusal layout fields reason
  | geonameId {range : Range} {text : String} (hrange : layout.Bounded fields range)
    (hsay : Says fields layout.geonameId text) (hlarge : ∀ n, Spells text n → 2 ^ 32 ≤ n) :
    Refusal layout fields (.geonameId text)

theorem rangeField_eq_ok_iff {range : Range} :
    rangeField fields layout.numbers layout.first layout.last = .ok range ↔
      layout.Bounded fields range := by
  simp only [rangeField, bind_eq_ok_iff, mapError_eq_ok_iff, requiredField_eq_ok_iff]
  constructor
  · rintro ⟨lower, hlower, upper, hupper, ⟨a, b⟩, hread, h⟩
    cases hbounds : Range.ofBounds? a b with
    | none =>
      rw [hbounds] at h
      exact absurd h (throw_ne_ok _ _)
    | some r =>
      rw [hbounds] at h
      obtain rfl := Except.ok.inj h
      have hspan := Range.ofBounds?_eq_some_iff.1 hbounds
      refine ⟨lower, upper, hlower, hupper, ?_⟩
      rw [hread, hspan]
  · rintro ⟨lower, upper, hlower, hupper, hread⟩
    refine ⟨lower, hlower, upper, hupper, _, hread, ?_⟩
    rw [Range.ofBounds?_eq_some_iff.2 rfl]
    rfl

theorem rangeField_eq_error_iff {reason : ParseError.Reason} :
    rangeField fields layout.numbers layout.first layout.last = .error reason ↔
      layout.Unbounded fields reason := by
  simp only [rangeField, bind_eq_error_iff, mapError_eq_ok_iff, mapError_eq_error_iff,
    requiredField_eq_ok_iff, requiredField_eq_error_iff]
  constructor
  · rintro (⟨rfl, h⟩ | ⟨lower, hlower, ⟨rfl, h⟩ | ⟨upper, hupper, ⟨fault, hread, rfl⟩ |
      ⟨⟨a, b⟩, hread, h⟩⟩⟩)
    · exact .first h
    · exact .last hlower h
    · exact .unread hlower hupper hread
    · cases hbounds : Range.ofBounds? a b with
      | none =>
        rw [hbounds] at h
        obtain rfl := Except.error.inj h
        exact .crossed hlower hupper hread (Range.ofBounds?_eq_none_iff.1 hbounds)
      | some r =>
        rw [hbounds] at h
        exact absurd h (pure_ne_error _ _)
  · rintro (h | ⟨hlower, h⟩ | ⟨hlower, hupper, hread⟩ | ⟨hlower, hupper, hread, hcrossed⟩)
    · exact Or.inl ⟨rfl, h⟩
    · exact Or.inr ⟨_, hlower, Or.inl ⟨rfl, h⟩⟩
    · exact Or.inr ⟨_, hlower, Or.inr ⟨_, hupper, Or.inl ⟨_, hread, rfl⟩⟩⟩
    · refine Or.inr ⟨_, hlower, Or.inr ⟨_, hupper, Or.inr ⟨_, hread, ?_⟩⟩⟩
      rw [Range.ofBounds?_eq_none_iff.2 hcrossed]
      rfl

theorem optionalField_eq_iff {o : Option String} :
    optionalField fields column = o ↔ ∀ text, o = some text ↔ Says fields column text := by
  simp only [← optionalField_eq_some_iff]
  rw [eq_comm, Option.ext_iff]

theorem country_eq_iff {o : Option String} :
    (optionalField fields column).map asciiUpper = o ↔ ∀ code, o = some code ↔
      ∃ text, Says fields column text ∧ List.Forall₂ Capital text.toList code.toList := by
  simp only [← asciiUpper_eq_iff, ← optionalField_eq_some_iff, ← Option.map_eq_some_iff]
  rw [eq_comm, Option.ext_iff]

/-- **The record of a line** is told by what its columns say. -/
theorem record_eq_ok_iff {record : Record} :
    layout.record keepSource line fields = .ok record ↔
      layout.Reads keepSource line fields record := by
  simp only [Layout.record, bind_eq_ok_iff, rangeField_eq_ok_iff, geonameField_eq_ok_iff]
  constructor
  · rintro ⟨range, hrange, id, hid, h⟩
    obtain rfl := Except.ok.inj h
    exact
      { bounds := hrange
        span := rfl
        countryCode := country_eq_iff.1 rfl
        geonameId := hid
        city := optionalField_eq_iff.1 rfl
        mostSpecificDivision := optionalField_eq_iff.1 rfl
        leastSpecificDivision := optionalField_eq_iff.1 rfl
        postalCode := optionalField_eq_iff.1 rfl
        sourceText := rfl
        vpn := rfl
        line := rfl }
  · obtain ⟨range, ⟨span, country, id, city, most, least, postal, source, vpn⟩, line'⟩ := record
    intro h
    refine ⟨range, h.bounds, id, h.geonameId, ?_⟩
    rw [country_eq_iff.2 h.countryCode, optionalField_eq_iff.2 h.city,
      optionalField_eq_iff.2 h.mostSpecificDivision, optionalField_eq_iff.2 h.leastSpecificDivision,
      optionalField_eq_iff.2 h.postalCode, ← h.sourceText, ← h.span, ← h.vpn, ← h.line]
    rfl

/-- **A line is no record for the first fault that its columns have.** -/
theorem record_eq_error_iff {reason : ParseError.Reason} :
    layout.record keepSource line fields = .error reason ↔ layout.Refusal fields reason := by
  simp only [Layout.record, bind_eq_error_iff, rangeField_eq_ok_iff, rangeField_eq_error_iff,
    geonameField_eq_ok_iff, geonameField_eq_error_iff]
  constructor
  · rintro (h | ⟨range, hrange, ⟨text, hsay, hlarge, rfl⟩ | ⟨id, -, h⟩⟩)
    · exact .bounds h
    · exact .geonameId hrange hsay hlarge
    · exact absurd h (pure_ne_error _ _)
  · rintro (h | ⟨hrange, hsay, hlarge⟩)
    · exact Or.inl h
    · exact Or.inr ⟨_, hrange, Or.inl ⟨_, hsay, hlarge, rfl⟩⟩

theorem Unbounded.not_bounded {reason : ParseError.Reason} {range : Range}
    (h : layout.Unbounded fields reason) : ¬ layout.Bounded fields range := by
  intro hrange
  rw [← rangeField_eq_error_iff] at h
  rw [← rangeField_eq_ok_iff, h] at hrange
  simp at hrange

/-- **The lines that are records** have the bounds of a range, and a number below 2³² if the column
for it says anything. -/
theorem exists_reads_iff :
    (∃ record, layout.Reads keepSource line fields record) ↔
      (∃ range, layout.Bounded fields range) ∧
        ∀ text, Says fields layout.geonameId text → ∃ n < 2 ^ 32, Spells text n := by
  constructor
  · rintro ⟨record, h⟩
    refine ⟨⟨_, h.bounds⟩, fun text hsay => ?_⟩
    obtain ⟨hnone, -⟩ | ⟨said, n, hsaid, hspells, -⟩ := h.geonameId
    · exact absurd hsay (hnone text)
    · obtain rfl := hsay.eq hsaid
      exact ⟨_, n.toNat_lt, hspells⟩
  · rintro ⟨⟨range, hrange⟩, hplace⟩
    cases hrecord : layout.record keepSource line fields with
    | ok record => exact ⟨record, record_eq_ok_iff.1 hrecord⟩
    | error reason =>
      -- neither the bounds nor the number can be at fault
      rcases record_eq_error_iff.1 hrecord with hbounds | ⟨-, hsay, hlarge⟩
      · exact absurd hrange hbounds.not_bounded
      · obtain ⟨n, hn, hspells⟩ := hplace _ hsay
        exact absurd (hlarge n hspells) (Nat.not_le.2 hn)

theorem exists_bounded_iff :
    (∃ range, layout.Bounded fields range) ↔
      ∃ lower upper a b, Filled fields layout.first lower ∧ Filled fields layout.last upper ∧
        Bounds.read layout.numbers lower upper = .ok (a, b) ∧ a.family = b.family ∧ a ≤ b := by
  constructor
  · rintro ⟨range, lower, upper, hlower, hupper, hread⟩
    exact ⟨lower, upper, _, _, hlower, hupper, hread, range.valid⟩
  · rintro ⟨lower, upper, a, b, hlower, hupper, hread, hvalid⟩
    exact ⟨⟨⟨a, b⟩, hvalid⟩, lower, upper, hlower, hupper, hread⟩

end Layout

/-! ## Lines -/

/-- A line that cannot be cut into fields is told as it is. -/
theorem Csv.line_of_fields_eq_error {delimiter : UInt8} {line : Line} {e : ParseError}
    (h : Csv.fields delimiter line = .error e) : e.line = line := by
  rw [Csv.fields] at h
  split at h
  · rw [← Except.error.inj h]
  · obtain ⟨reason, -, rfl⟩ := mapError_eq_error_iff.1 h
    rfl

/-- The same record with a source text on its location. -/
def Record.withSource (record : Record) (text : String) : Record :=
  { record with location := { record.location with sourceText := some text } }

namespace Layout

variable {layout : Layout} {keepSource : Bool} {line : Line}

theorem reader_eq_ok_iff {record : Record} :
    layout.reader keepSource line = .ok record ↔
      ∃ fields, Csv.fields layout.delimiter line = .ok fields ∧
        layout.Reads keepSource line fields record := by
  simp only [reader, bind_eq_ok_iff, mapError_eq_ok_iff, record_eq_ok_iff]

theorem reader_eq_error_iff {e : ParseError} :
    layout.reader keepSource line = .error e ↔
      e.line = line ∧ (Csv.fields layout.delimiter line = .error e ∨
        ∃ fields, Csv.fields layout.delimiter line = .ok fields ∧
          layout.Refusal fields e.reason) := by
  simp only [reader, bind_eq_error_iff, mapError_eq_error_iff, record_eq_error_iff]
  constructor
  · rintro (h | ⟨fields, hfields, reason, hreason, rfl⟩)
    · exact ⟨Csv.line_of_fields_eq_error h, Or.inl h⟩
    · exact ⟨rfl, Or.inr ⟨fields, hfields, hreason⟩⟩
  · rintro ⟨rfl, h | ⟨fields, hfields, hreason⟩⟩
    · exact Or.inl h
    · exact Or.inr ⟨fields, hfields, e.reason, hreason, rfl⟩

theorem exists_reader_iff :
    (∃ record, layout.reader keepSource line = .ok record) ↔
      ∃ fields, Csv.fields layout.delimiter line = .ok fields ∧
        (∃ range, layout.Bounded fields range) ∧
          ∀ text, Says fields layout.geonameId text → ∃ n < 2 ^ 32, Spells text n := by
  constructor
  · rintro ⟨record, h⟩
    obtain ⟨fields, hfields, hreads⟩ := reader_eq_ok_iff.1 h
    exact ⟨fields, hfields, exists_reads_iff.1 ⟨record, hreads⟩⟩
  · rintro ⟨fields, hfields, h⟩
    obtain ⟨record, hreads⟩ := exists_reads_iff.2 h
    exact ⟨record, reader_eq_ok_iff.2 ⟨fields, hfields, hreads⟩⟩

/-- **Keeping the source text adds it to the records** and does nothing else. -/
theorem reader_true (layout : Layout) (line : Line) :
    layout.reader true line = (layout.reader false line).map (·.withSource line.text) := by
  have hrecord : ∀ fields, layout.record true line fields =
      (layout.record false line fields).map (·.withSource line.text) := by
    intro fields
    rw [record, record]
    cases rangeField fields layout.numbers layout.first layout.last with
    | error reason => rfl
    | ok range =>
      cases geonameField fields layout.geonameId with
      | error reason => rfl
      | ok id => rfl
  rw [reader, reader]
  cases Csv.fields layout.delimiter line with
  | error e => rfl
  | ok fields =>
    show (layout.record true line fields).mapError _ = _
    rw [hrecord fields]
    show _ = ((layout.record false line fields).mapError _).map _
    cases layout.record false line fields with
    | error reason => rfl
    | ok record => rfl

/-- **The columns of a line tell its record.**  A line is a record if it has fields, the bounds of a
range in the two columns for them, and a number below 2³² in the column for the number of the place
if that says anything; the record then has what the columns say, each between its blanks.  Any other
line is refused as it is, for the first fault that it has.  Keeping the source text adds it to the
record. -/
theorem reader_exact (layout : Layout) (line : Line) :
    (∀ keepSource record, layout.reader keepSource line = .ok record ↔
      ∃ fields, Csv.fields layout.delimiter line = .ok fields ∧
        layout.Reads keepSource line fields record) ∧
    (∀ keepSource, (∃ record, layout.reader keepSource line = .ok record) ↔
      ∃ fields, Csv.fields layout.delimiter line = .ok fields ∧
        (∃ lower upper a b, Filled fields layout.first lower ∧ Filled fields layout.last upper ∧
          Bounds.read layout.numbers lower upper = .ok (a, b) ∧ a.family = b.family ∧ a ≤ b) ∧
        ∀ text, Says fields layout.geonameId text → ∃ n < 2 ^ 32, Spells text n) ∧
    (∀ keepSource e, layout.reader keepSource line = .error e ↔
      e.line = line ∧ (Csv.fields layout.delimiter line = .error e ∨
        ∃ fields, Csv.fields layout.delimiter line = .ok fields ∧
          layout.Refusal fields e.reason)) ∧
    layout.reader true line = (layout.reader false line).map (·.withSource line.text) := by
  refine ⟨fun keepSource record => reader_eq_ok_iff, fun keepSource => ?_,
    fun keepSource e => reader_eq_error_iff, reader_true layout line⟩
  simp only [← exists_bounded_iff]
  exact exists_reader_iff

/-- A line with a quoted field, a blank around another, a sign in front of the number, one column
under two names and one column that is not there; the same line without its number; and two lines
that are refused, the second for its number. -/
theorem reader_exact_quoted :
    ∃ (layout : Layout) (record : Record),
      record.range.first.toText = "1.0.0.0" ∧ record.range.last.toText = "1.0.0.9" ∧
      record.location.countryCode = some "US" ∧ record.location.geonameId = some 7 ∧
      record.location.city = some "Oslo" ∧ record.location.mostSpecificDivision = some "Oslo" ∧
      record.location.postalCode = none ∧
      layout.reader false ⟨3, "\"1.0.0.0\", 1.0.0.9 ,us,+7,Oslo"⟩ = .ok record ∧
      layout.reader true ⟨3, "\"1.0.0.0\", 1.0.0.9 ,us,+7,Oslo"⟩ =
        .ok (record.withSource "\"1.0.0.0\", 1.0.0.9 ,us,+7,Oslo") ∧
      (∃ bare, layout.reader true ⟨4, "\"1.0.0.0\", 1.0.0.9 ,us,-,Oslo"⟩ = .ok bare) ∧
      layout.reader true ⟨5, "1.0.0.9"⟩ = .error ⟨⟨5, "1.0.0.9"⟩, .missingField "end" 1⟩ ∧
      layout.reader true ⟨6, "1.0.0.0,1.0.0.9,us,x"⟩ =
        .error ⟨⟨6, "1.0.0.0,1.0.0.9,us,x"⟩, .geonameId "x"⟩ := by
  let layout : Layout :=
    { geonameId := some 3, city := some 4, mostSpecificDivision := some 4, postalCode := some 9 }
  let range : Range := ⟨⟨⟨.v4, 0x01000000, by decide⟩, ⟨.v4, 0x01000009, by decide⟩⟩, by decide⟩
  let location : Location :=
    { span := range.toSpan
      countryCode := some "US"
      geonameId := some 7
      city := some "Oslo"
      mostSpecificDivision := some "Oslo" }
  let line : Line := ⟨3, "\"1.0.0.0\", 1.0.0.9 ,us,+7,Oslo"⟩
  have hbounds : ∀ rest, layout.Bounded ("1.0.0.0" :: " 1.0.0.9 " :: rest) range := by
    intro rest
    refine ⟨"1.0.0.0", "1.0.0.9", ?_, ?_, by decide⟩
    · exact filled_iff.2 ⟨congrArg some (by decide), by decide⟩
    · exact filled_iff.2 ⟨congrArg some (by decide), by decide⟩
  obtain ⟨hrecord, -, -, hkept⟩ := reader_exact layout line
  have hread : layout.reader false line = .ok ⟨range, location, line⟩ := by
    refine (hrecord false _).2 ⟨["1.0.0.0", " 1.0.0.9 ", "us", "+7", "Oslo"], by decide, ?_⟩
    exact
      { bounds := hbounds _
        span := rfl
        countryCode := country_eq_iff.1 (by decide)
        geonameId := geonameField_eq_ok_iff.1 (by decide)
        city := optionalField_eq_iff.1 (by decide)
        mostSpecificDivision := optionalField_eq_iff.1 (by decide)
        leastSpecificDivision := optionalField_eq_iff.1 (by decide)
        postalCode := optionalField_eq_iff.1 (by decide)
        sourceText := rfl
        vpn := rfl
        line := rfl }
  refine ⟨layout, ⟨range, location, line⟩, by decide, by decide, rfl, rfl, rfl, rfl, rfl, hread,
    ?_, ?_, ?_, ?_⟩
  · rw [hkept, hread]
    rfl
  · -- a lone hyphen is no number, and need not be one
    obtain ⟨-, haccepted, -⟩ :=
      reader_exact layout ⟨4, "\"1.0.0.0\", 1.0.0.9 ,us,-,Oslo"⟩
    refine (haccepted true).2 ⟨["1.0.0.0", " 1.0.0.9 ", "us", "-", "Oslo"], by decide,
      exists_bounded_iff.1 ⟨range, hbounds _⟩, fun text hsay => ?_⟩
    exact absurd hsay (optionalField_eq_none_iff.1 (by decide) text)
  · obtain ⟨-, -, hrefused, -⟩ := reader_exact layout ⟨5, "1.0.0.9"⟩
    refine (hrefused true _).2 ⟨rfl, Or.inr ⟨["1.0.0.9"], by decide, .bounds ?_⟩⟩
    have hlower : Filled ["1.0.0.9"] layout.first "1.0.0.9" := filled_iff.2 (by decide)
    refine .last hlower ?_
    rintro text ⟨-, field, hfield, -⟩
    simp [layout] at hfield
  · obtain ⟨-, -, hrefused, -⟩ := reader_exact layout ⟨6, "1.0.0.0,1.0.0.9,us,x"⟩
    refine (hrefused true _).2 ⟨rfl, Or.inr ⟨["1.0.0.0", "1.0.0.9", "us", "x"], by decide, ?_⟩⟩
    have hrange : layout.Bounded ["1.0.0.0", "1.0.0.9", "us", "x"] range :=
      rangeField_eq_ok_iff.1 (by decide)
    refine .geonameId hrange (optionalField_eq_some_iff.1 (by decide)) ?_
    exact Text.unsigned?_eq_none_iff.1 (by decide)

end Layout

end IpAtlas
