import IpAtlas.Journal
import IpAtlas.Overlay

/-!
# Tracks

A track is a collection of marks read as one ascending sequence.  Its sources are merged by where
their next marks start, the earlier source first where two start together, and a mark that does not
start after the end of the last one kept is dropped with a warning.  A source may also have remarks
to make between its marks; they are made when the merge comes to look past them.

The merge does not depend on how the track is read, so it is written down once, as a list of events,
and a track is a place in that list with one mark of look-ahead.

## What is here

* `Item` — a mark or a remark of a source.
* `Track.Event`, `Track.merge` — the merge of some sources.
* `Track`, `Track.ofSources`, `Track.ofMarks`.
* `Track.peek`, `Track.next`, `Track.skipTo`, `Track.drain` — reading.
-/

set_option autoImplicit false

namespace IpAtlas

/-- What a source of marks yields. -/
inductive Item (α : Type) where
  | mark (mark : Mark α)
  | remark (remark : Remark)

namespace Item

/-- Whether an item is a remark. -/
def isRemark {α : Type} : Item α → Bool
  | mark _ => false
  | remark _ => true

/-- The remark of an item. -/
def remark? {α : Type} : Item α → Option Remark
  | mark _ => none
  | remark r => some r

end Item

namespace Track

/-! ## The merge -/

/-- What happens in a merge. -/
inductive Event (α : Type) where
  /-- A mark is the next of the track. -/
  | kept (mark : Mark α)
  /-- A mark does not start after the end of the last one. -/
  | dropped (mark : Mark α) (last : Address)
  /-- A source makes a remark. -/
  | remark (remark : Remark)

/-- How many items some sources have left. -/
def total {α : Type} : List (List (Item α)) → Nat
  | [] => 0
  | source :: sources => source.length + total sources

/-- The mark that starts least among those in front of the sources, the earliest of equals, and the
sources without it. -/
def takeLeast {α : Type} : List (List (Item α)) → Option (Mark α × List (List (Item α)))
  | [] => none
  | source :: sources =>
    match source, takeLeast sources with
    | .mark m :: rest, none => some (m, rest :: sources)
    | .mark m :: rest, some (m', sources') =>
      if m.span.first ≤ m'.span.first then some (m, rest :: sources)
      else some (m', (.mark m :: rest) :: sources')
    | source, some (m', sources') => some (m', source :: sources')
    | _, none => none

theorem total_takeLeast {α : Type} {sources sources' : List (List (Item α))} {m : Mark α}
    (h : takeLeast sources = some (m, sources')) : total sources' + 1 = total sources := by
  induction sources generalizing m sources' with
  | nil => simp [takeLeast] at h
  | cons source sources ih =>
    simp only [takeLeast] at h
    split at h
    · obtain ⟨rfl, rfl⟩ := by simpa using h
      simp [total]; omega
    · split at h
      · obtain ⟨rfl, rfl⟩ := by simpa using h
        simp [total]; omega
      · rename_i hs _
        obtain ⟨rfl, rfl⟩ := by simpa using h
        have := ih hs
        simp only [total] at this ⊢; omega
    · rename_i hs
      obtain ⟨rfl, rfl⟩ := by simpa using h
      have := ih hs
      simp only [total] at this ⊢; omega
    · simp at h

/-- The sources from their next marks on. -/
def fromMarks {α : Type} (sources : List (List (Item α))) : List (List (Item α)) :=
  sources.map (List.dropWhile Item.isRemark)

theorem total_fromMarks {α : Type} (sources : List (List (Item α))) :
    total (fromMarks sources) ≤ total sources := by
  induction sources with
  | nil => simp [total, fromMarks]
  | cons source sources ih =>
    have := List.IsSuffix.length_le (List.dropWhile_suffix (l := source) Item.isRemark)
    simp only [total, fromMarks, List.map_cons] at ih ⊢
    omega

/-- The remarks that the sources make before their next marks. -/
def leadingRemarks {α : Type} (sources : List (List (Item α))) : Journal :=
  sources.flatMap fun source => (source.takeWhile Item.isRemark).filterMap Item.remark?

/-- All that happens in the merge of some sources, after a mark that ended at `last`. -/
def merge {α : Type} (last : Option Address) (sources : List (List (Item α))) : List (Event α) :=
  (leadingRemarks sources).map .remark ++
    match h : takeLeast (fromMarks sources) with
    | none => []
    | some (m, sources') =>
      have : total sources' < total sources := by
        have h1 := total_takeLeast h
        have h2 := total_fromMarks sources
        omega
      match last with
      | some last =>
        if last < m.span.first then .kept m :: merge (some m.span.last) sources'
        else .dropped m last :: merge (some last) sources'
      | none => .kept m :: merge (some m.span.last) sources'
  termination_by total sources

end Track

/-! ## Reading a track -/

/-- A place in a merge. -/
structure Track (α : Type) where
  /-- What is still to happen. -/
  events : List (Track.Event α)
  /-- The mark that was looked at and not taken. -/
  ahead : Option (Mark α) := none
  /-- How many marks were dropped so far. -/
  dropped : Nat := 0

namespace Track

variable {α : Type}

/-- The track of some sources. -/
def ofSources (sources : List (List (Item α))) : Track α := { events := merge none sources }

/-- The track of lists of marks. -/
def ofMarks (sources : List (List (Mark α))) : Track α :=
  ofSources (sources.map fun marks => marks.map Item.mark)

/-- What a step along a track gives. -/
structure Move (α : Type) where
  mark : Option (Mark α)
  track : Track α
  remarks : Journal

/-- The warning that a mark is dropped. -/
def dropWarning (m : Mark α) (last : Address) : Remark :=
  ⟨.warn, s!"dropping decorator range {m.span}: does not follow {last}"⟩

/-- The next mark that is still wanted, among what is to happen.  Marks that are not are passed
over. -/
def pull (wanted : Mark α → Bool) (dropped : Nat) : List (Event α) → Move α
  | [] => ⟨none, { events := [], dropped }, []⟩
  | .kept m :: events =>
    if wanted m then ⟨some m, { events, dropped }, []⟩ else pull wanted dropped events
  | .dropped m last :: events =>
    let move := pull wanted (dropped + 1) events
    { move with remarks := dropWarning m last :: move.remarks }
  | .remark r :: events =>
    let move := pull wanted dropped events
    { move with remarks := r :: move.remarks }

/-- Takes the next mark. -/
def next (t : Track α) : Move α :=
  match t.ahead with
  | some m => ⟨some m, { t with ahead := none }, []⟩
  | none => pull (fun _ => true) t.dropped t.events

/-- Looks at the next mark that is wanted, passing over those before it. -/
def lookFor (wanted : Mark α → Bool) (t : Track α) : Move α :=
  if t.ahead.any wanted then ⟨t.ahead, t, []⟩
  else
    let move := pull wanted t.dropped t.events
    { move with track := { move.track with ahead := move.mark } }

/-- Looks at the next mark. -/
def peek (t : Track α) : Move α := t.lookFor fun _ => true

/-- Looks at the next mark that does not end before an address. -/
def skipTo (a : Address) (t : Track α) : Move α := t.lookFor fun m => a ≤ m.span.last

/-- All marks that are left, with the remarks made on the way. -/
def drain (t : Track α) : List (Mark α) × Journal :=
  (t.ahead.toList ++ t.events.filterMap (fun | .kept m => some m | _ => none),
    t.events.filterMap fun
      | .kept _ => none
      | .dropped m last => some (dropWarning m last)
      | .remark r => some r)

/-- The track when all marks are taken. -/
def drained (t : Track α) : Track α :=
  { events := []
    dropped := t.dropped + t.events.countP (fun | .dropped .. => true | _ => false) }

end Track

end IpAtlas
