import IpAtlas.Overlay.Track

/-!
# Sweeping marks over records

A sweep lays tracks of marks over the ascending records of a provider.  It goes forward only: for
each track it holds the mark it is in, and looks at the next.  A record is cut wherever the mark of
some track begins or ends inside it, and every piece is rewritten by the rules, with the data that
the policy selects from the marks that cover it.

The pieces of a record are given as a list of cuts.  Each carries the sweep as it stands when its
piece is handed over, so whoever stops in the middle of a record has the sweep to go on with.

A record that goes back only meets the marks the sweep has not passed.

## What is here

* `Cursor` — a track and the mark the sweep is in.
* `Sweep`, `Sweep.cuts` — the pieces of a record, one after the other.
* `Sweep.decorate` — all pieces, and the sweep after them.
* `Sweep.feed` — the pieces handed to a receiver that may refuse one.
-/

set_option autoImplicit false

namespace IpAtlas

/-- A track, and the mark of it that the sweep is in. -/
structure Cursor (α : Type) where
  track : Track α
  active : Option (Mark α) := none

namespace Cursor

variable {α : Type}

/-- The cursor at an address: what ends before it is left behind, and a mark that has begun is
taken.  The remarks are those of the track. -/
def advance (a : Address) (c : Cursor α) : Cursor α × Journal :=
  match c.active.filter fun m => a ≤ m.span.last with
  | some m => ({ c with active := some m }, [])
  | none =>
    let move := c.track.skipTo a
    match move.mark with
    | some m =>
      if m.span.first ≤ a then
        (⟨{ move.track with ahead := none }, some m⟩, move.remarks)
      else (⟨move.track, none⟩, move.remarks)
    | none => (⟨move.track, none⟩, move.remarks)

/-- The data for an address to which the cursor has advanced. -/
def covering (a : Address) (c : Cursor α) : Option α :=
  (c.active.filter fun m => m.span.first ≤ a).map (·.data)

/-- The first address after one to which the cursor has advanced where its data may change. -/
def change? (a : Address) (c : Cursor α) : Option Address :=
  match c.active with
  | some m => if a < m.span.first then some m.span.first else m.span.last.succ?
  | none => c.track.ahead.map (·.span.first)

end Cursor

/-- Tracks being laid over ascending records. -/
structure Sweep (α : Type) where
  cursors : List (Cursor α)
  rules : Rules α
  policy : Policy := .union

namespace Sweep

variable {α : Type}

/-- A sweep that has not begun. -/
def ofTracks (tracks : List (Track α)) (rules : Rules α) (policy : Policy := .union) : Sweep α :=
  ⟨tracks.map fun track => { track }, rules, policy⟩

/-- The sweep at an address. -/
def advance (a : Address) (s : Sweep α) : Sweep α × Journal :=
  let moved := s.cursors.map (Cursor.advance a)
  ({ s with cursors := moved.map (·.1) }, moved.flatMap (·.2))

/-- The data that counts for an address to which the sweep has advanced. -/
def dataAt (a : Address) (s : Sweep α) : Option α :=
  s.policy.select (s.cursors.map (Cursor.covering a))

/-- The lowest of some addresses. -/
def lowest : List Address → Option Address
  | [] => none
  | a :: as =>
    match lowest as with
    | some b => some (if a ≤ b then a else b)
    | none => some a

theorem lowest_mem {as : List Address} {a : Address} (h : lowest as = some a) : a ∈ as := by
  induction as generalizing a with
  | nil => simp [lowest] at h
  | cons b bs ih =>
    simp only [lowest] at h
    split at h
    · rename_i c hc
      have := ih hc
      simp only [Option.some.injEq] at h
      split at h <;> simp_all
    · simp_all

/-- Where the data of some track may change inside a range at whose start the sweep is. -/
def changes (s : Sweep α) (r : Range) : List Address :=
  (s.cursors.filterMap (Cursor.change? r.first)).filter fun a => r.CutBy a

/-- The first place where a range must be cut. -/
def nextCut (s : Sweep α) (r : Range) : Option { a : Address // r.CutBy a } :=
  match h : lowest (s.changes r) with
  | some a => some ⟨a, by simpa [changes] using (List.mem_filter.1 (lowest_mem h)).2⟩
  | none => none

/-- The part of a record that a range covers, at whose start the sweep is. -/
def piece (s : Sweep α) (record : Record) (r : Range) : Record :=
  { record with
    range := r
    location := s.rules.apply record.location (s.dataAt r.first) r.toSpan }

/-- One piece of a record, the sweep when it is handed over, and the remarks made before. -/
structure Cut (α : Type) where
  piece : Record
  sweep : Sweep α
  remarks : Journal

/-- The pieces of a record from the start of `rest`, which is what is left of its range. -/
def cutsFrom (record : Record) (s : Sweep α) (rest : Range) : List (Cut α) :=
  let (s, remarks) := s.advance rest.first
  match s.nextCut rest with
  | none => [⟨s.piece record rest, s, remarks⟩]
  | some ⟨a, h⟩ =>
    have := Range.extent_onwards_lt h
    ⟨s.piece record (rest.upTo a h), s, remarks⟩ :: cutsFrom record s (rest.onwards a h)
  termination_by rest.extent

/-- The pieces of a record. -/
def cuts (s : Sweep α) (record : Record) : List (Cut α) := s.cutsFrom record record.range

/-- The sweep after some cuts. -/
def afterCuts (s : Sweep α) (cuts : List (Cut α)) : Sweep α :=
  (cuts.getLast?.map (·.sweep)).getD s

/-- All pieces of a record, the sweep after them, and the remarks made. -/
def decorate (s : Sweep α) (record : Record) : List Record × Sweep α × Journal :=
  let cuts := s.cuts record
  (cuts.map (·.piece), s.afterCuts cuts, cuts.flatMap (·.remarks))

/-- All pieces of some records, one record after the other. -/
def decorateAll (s : Sweep α) : List Record → List (List Record) × Sweep α × Journal
  | [] => ([], s, [])
  | record :: records =>
    let (pieces, s, remarks) := s.decorate record
    let (more, s, moreRemarks) := s.decorateAll records
    (pieces :: more, s, remarks ++ moreRemarks)

/-- Hands cuts over until one is refused, with the remarks made before each, to a receiver whose
state is `state`: its state then, the refusal if there is one, and the sweep to go on with, which is
`s` if there are no cuts. -/
def handOver {σ ε : Type} (receive : σ → Journal → Record → σ × Option ε) (state : σ)
    (s : Sweep α) : List (Cut α) → σ × Option ε × Sweep α
  | [] => (state, none, s)
  | cut :: cuts =>
    match receive state cut.remarks cut.piece with
    | (state, some e) => (state, some e, cut.sweep)
    | (state, none) => handOver receive state cut.sweep cuts

/-- Hands the pieces of a record over until one is refused. -/
def feed {σ ε : Type} (receive : σ → Journal → Record → σ × Option ε) (state : σ) (s : Sweep α)
    (record : Record) : σ × Option ε × Sweep α :=
  handOver receive state s (s.cuts record)

end Sweep

end IpAtlas
