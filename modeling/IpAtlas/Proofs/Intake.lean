import IpAtlas.Proofs.Builder
import IpAtlas.Proofs.Tiling

/-!
# What becomes of records that are cut

The order of what is stored is checked piece by piece, while it is whole records that are in order
or not.  A record that starts after everything stored is stored as a whole, in however many pieces.
One that does not is refused at its first piece.  A listener that fails fast ends the build there,
and so nothing of the record is stored.  One that skips goes on with the next piece, and the pieces
that do start after everything stored are stored without the others: part of a record is stored
exactly if the record straddles the end of what was stored before.

As long as no record does that, cutting records changes nothing about which addresses are covered.

## What is here

* `Intake`, `Intake.Whole`, `Intake.Straddles` — what became of a record.
* `Intake.whole_iff` — all or nothing of a record is stored exactly if it does not straddle.
* `Intake.account`, `Intake.Accounts` — what becomes of many records.
* `Intake.covers_iff`, `Intake.exists_covers_of_part` — what cutting the records changes.
-/

set_option autoImplicit false

namespace IpAtlas

/-! ## Order and pieces -/

namespace Record

variable {before pieces : List Record} {record piece next : Record}

theorem Follows.mono (h : Follows before record) (hle : record.range.first ≤ piece.range.first) :
    Follows before piece := fun last hlast => Nat.lt_of_lt_of_le (h last hlast) hle

theorem follows_concat :
    Follows (before ++ [piece]) next ↔ piece.range.last < next.range.first := by
  simp [Follows]

theorem filter_follows_eq_self (h : ∀ piece ∈ pieces, Follows before piece) :
    pieces.filter (fun piece => Follows before piece) = pieces := by
  rw [List.filter_eq_self]
  exact fun piece hpiece => decide_eq_true (h piece hpiece)

/-- Whether a record follows depends on the end of the last one only. -/
theorem follows_congr {before' : List Record}
    (h : before.getLast?.map (·.range.last) = before'.getLast?.map (·.range.last)) :
    Follows before record ↔ Follows before' record := by
  have hend : ∀ stored : List Record, Follows stored record ↔
      ∀ last ∈ stored.getLast?.map (·.range.last), last < record.range.first := fun stored => by
    simp [Follows]
  rw [hend, hend, h]

end Record

/-! ## What becomes of a record -/

/-- What became of a record: the pieces it was cut into, and those of them that were stored. -/
structure Intake where
  record : Record
  pieces : List Record
  stored : List Record

namespace Intake

/-- All of a record is stored, or nothing. -/
def Whole (i : Intake) : Prop :=
  Range.Tiles i.record.range (i.stored.map (·.range)) ∨ i.stored = []

/-- A record that does not follow what was stored before, while one of its pieces does. -/
def Straddles (before : List Record) (i : Intake) : Prop :=
  ¬ Record.Follows before i.record ∧ ∃ piece ∈ i.pieces, Record.Follows before piece

instance (before : List Record) (i : Intake) : Decidable (i.Straddles before) :=
  inferInstanceAs (Decidable (_ ∧ _))

/-- What becomes of records that are cut into pieces, when some are stored before: of each those
pieces are stored that follow.  If the build fails fast, it ends at the first record that does
not. -/
def account (failFast : Bool) (before : List Record) : List (Record × List Record) → List Intake
  | [] => []
  | (record, pieces) :: rest =>
    if failFast = true ∧ ¬ Record.Follows before record then []
    else
      let stored := pieces.filter fun piece => Record.Follows before piece
      ⟨record, pieces, stored⟩ :: account failFast (before ++ stored) rest

/-- What is true of what becomes of some records, when nothing is stored before. -/
structure Accounts (failFast : Bool) (records : List Record) (intakes : List Intake) : Prop where
  /-- The records are taken in their order: to the end if the build skips, and if it fails fast, to
  the first that does not follow. -/
  inOrder : ∃ rest, records = intakes.map Intake.record ++ rest ∧ (failFast = false → rest = []) ∧
    ∀ next ∈ rest.head?, ¬ Record.Follows (intakes.flatMap Intake.stored) next
  /-- Each is cut into pieces that leave nothing out, -/
  tiles : ∀ i ∈ intakes, Range.Tiles i.record.range (i.pieces.map (·.range))
  /-- and that keep its line. -/
  line : ∀ i ∈ intakes, ∀ piece ∈ i.pieces, piece.line = i.record.line
  /-- Those pieces are stored that start after the end of what was stored before the record. -/
  stored : ∀ front i back, intakes = front ++ i :: back → i.stored = i.pieces.filter fun piece =>
    Record.Follows (front.flatMap Intake.stored) piece

section

variable {before pieces : List Record} {record : Record} {i : Intake}

theorem first_le_of_tiles (h : Range.Tiles record.range (pieces.map (·.range))) :
    ∀ piece ∈ pieces, record.range.first ≤ piece.range.first := fun _ hpiece =>
  (h.within _ (List.mem_map_of_mem hpiece)).1

/-- A record that follows is stored as a whole. -/
theorem filter_of_follows (h : Range.Tiles record.range (pieces.map (·.range)))
    (hfollows : Record.Follows before record) :
    pieces.filter (fun piece => Record.Follows before piece) = pieces := by
  refine Record.filter_follows_eq_self fun piece hpiece => ?_
  exact hfollows.mono (first_le_of_tiles h piece hpiece)

/-- **All or nothing of a record is stored exactly if it does not straddle** the end of what was
stored before. -/
theorem whole_iff (htiles : Range.Tiles i.record.range (i.pieces.map (·.range)))
    (hstored : i.stored = i.pieces.filter fun piece => Record.Follows before piece) :
    i.Whole ↔ ¬ i.Straddles before := by
  constructor
  · rintro hwhole ⟨hnot, piece, hpiece, hfollows⟩
    have hmem : piece ∈ i.stored := by
      rw [hstored]
      exact List.mem_filter.2 ⟨hpiece, decide_eq_true hfollows⟩
    rcases hwhole with hall | hnone
    · obtain ⟨t, ht, hcontains⟩ :=
        (hall.exists_contains_iff i.record.range.first).2 i.record.range.contains_first
      obtain ⟨start, hstart, rfl⟩ := List.mem_map.1 ht
      rw [hstored, List.mem_filter] at hstart
      exact hnot ((of_decide_eq_true hstart.2).mono (Span.contains_iff.1 hcontains).1)
    · rw [hnone] at hmem
      exact nomatch hmem
  · intro hnot
    by_cases hfollows : Record.Follows before i.record
    · rw [Whole, hstored, filter_of_follows htiles hfollows]
      exact Or.inl htiles
    · refine Or.inr ?_
      rw [hstored, List.filter_eq_nil_iff]
      exact fun piece hpiece hpos => hnot ⟨hfollows, piece, hpiece, of_decide_eq_true hpos⟩

end

/-! ## What becomes of many records -/

section

variable {failFast : Bool} {before before' : List Record} {pairs : List (Record × List Record)}
  {record : Record} {pieces : List Record}

theorem account_of_stop (h : failFast = true ∧ ¬ Record.Follows before record) :
    account failFast before ((record, pieces) :: pairs) = [] := by
  rw [account, if_pos h]

theorem follows_of_not_stop (h : ¬ (failFast = true ∧ ¬ Record.Follows before record))
    (hfast : failFast = true) : Record.Follows before record :=
  Decidable.not_not.1 fun hnot => h ⟨hfast, hnot⟩

theorem account_of_go (h : failFast = true → Record.Follows before record) :
    account failFast before ((record, pieces) :: pairs) =
      ⟨record, pieces, pieces.filter fun piece => Record.Follows before piece⟩ ::
        account failFast (before ++ pieces.filter fun piece => Record.Follows before piece)
          pairs := by
  rw [account, if_neg fun hstop => hstop.2 (h hstop.1)]

/-- Each record of an account stands among those given, and its pieces were compared with all that
was stored of the records before it. -/
theorem of_account_eq {front back : List Intake} {i : Intake}
    (h : account failFast before pairs = front ++ i :: back) :
    (i.record, i.pieces) ∈ pairs ∧ (failFast = true →
      Record.Follows (before ++ front.flatMap Intake.stored) i.record) ∧
      i.stored = i.pieces.filter fun piece =>
        Record.Follows (before ++ front.flatMap Intake.stored) piece := by
  induction pairs generalizing before front with
  | nil => exact absurd h (by simp [account])
  | cons pair pairs ih =>
    obtain ⟨record, pieces⟩ := pair
    by_cases hstop : failFast = true ∧ ¬ Record.Follows before record
    · rw [account_of_stop hstop] at h
      exact absurd h (by simp)
    have hgo : failFast = true → Record.Follows before record := follows_of_not_stop hstop
    rw [account_of_go hgo] at h
    cases front with
    | nil =>
      obtain ⟨rfl, -⟩ := List.cons.inj h
      simpa using hgo
    | cons j front =>
      obtain ⟨rfl, hrest⟩ := List.cons.inj h
      obtain ⟨hmem, hfollows, hstored⟩ := ih hrest
      rw [List.append_assoc] at hfollows hstored
      exact ⟨List.mem_cons_of_mem _ hmem, hfollows, hstored⟩

/-- An account goes through the records in their order: to the end if the build skips, and if it
fails fast, to the first that does not follow. -/
theorem records_account (failFast : Bool) (before : List Record)
    (pairs : List (Record × List Record)) :
    ∃ rest, pairs.map Prod.fst = (account failFast before pairs).map Intake.record ++ rest ∧
      (failFast = false → rest = []) ∧
      ∀ next ∈ rest.head?, ¬ Record.Follows
        (before ++ (account failFast before pairs).flatMap Intake.stored) next := by
  induction pairs generalizing before with
  | nil => exact ⟨[], rfl, fun _ => rfl, fun _ h => nomatch h⟩
  | cons pair pairs ih =>
    obtain ⟨record, pieces⟩ := pair
    by_cases hstop : failFast = true ∧ ¬ Record.Follows before record
    · rw [account_of_stop hstop]
      refine ⟨record :: pairs.map Prod.fst, rfl, fun hskip => ?_, fun next hnext => ?_⟩
      · rw [hskip] at hstop
        exact nomatch hstop.1
      · obtain rfl := Option.some_inj.1 hnext
        simpa using hstop.2
    · obtain ⟨rest, hsplit, hall, hnext⟩ :=
        ih (before ++ pieces.filter fun piece => Record.Follows before piece)
      rw [account_of_go (follows_of_not_stop hstop)]
      rw [List.append_assoc] at hnext
      exact ⟨rest, congrArg _ hsplit, hall, hnext⟩

theorem account_of_follows (htiles : Range.Tiles record.range (pieces.map (·.range)))
    (hfollows : Record.Follows before record) :
    account failFast before ((record, pieces) :: pairs) =
      ⟨record, pieces, pieces⟩ :: account failFast (before ++ pieces) pairs := by
  rw [account_of_go fun _ => hfollows, filter_of_follows htiles hfollows]

theorem account_of_skip :
    account false before ((record, pieces) :: pairs) =
      ⟨record, pieces, pieces.filter fun piece => Record.Follows before piece⟩ ::
        account false (before ++ pieces.filter fun piece => Record.Follows before piece) pairs :=
  account_of_go fun hfast => absurd hfast Bool.false_ne_true

theorem account_of_none (hnone : ∀ piece ∈ pieces, ¬ Record.Follows before piece) :
    account false before ((record, pieces) :: pairs) =
      ⟨record, pieces, []⟩ :: account false before pairs := by
  have hfilter : pieces.filter (fun piece => Record.Follows before piece) = [] := by
    rw [List.filter_eq_nil_iff]
    exact fun piece hpiece hpos => hnone piece hpiece (of_decide_eq_true hpos)
  rw [account_of_skip, hfilter, List.append_nil]

/-- No piece of a record that does not follow does so, if the record is not stored in part. -/
theorem not_follows_of_whole (htiles : Range.Tiles record.range (pieces.map (·.range)))
    (hwhole : Whole ⟨record, pieces, pieces.filter fun piece => Record.Follows before piece⟩)
    (hnot : ¬ Record.Follows before record) :
    ∀ piece ∈ pieces, ¬ Record.Follows before piece := by
  intro piece hpiece hfollows
  exact (whole_iff htiles rfl).1 hwhole ⟨hnot, piece, hpiece, hfollows⟩

/-- The pieces of a record end where it does. -/
theorem getLast?_append_pieces (before : List Record)
    (htiles : Range.Tiles record.range (pieces.map (·.range))) :
    (before ++ pieces).getLast?.map (·.range.last) = some record.range.last := by
  have hend := htiles.ends.2
  rw [List.getLast?_map, Option.map_map] at hend
  rw [List.getLast?_append]
  cases hlast : pieces.getLast? with
  | none =>
    rw [hlast] at hend
    exact nomatch hend
  | some piece =>
    rw [hlast] at hend
    simpa using hend

theorem getLast?_append_pieces_eq (htiles : Range.Tiles record.range (pieces.map (·.range))) :
    (before ++ pieces).getLast?.map (·.range.last) =
      (before' ++ [record]).getLast?.map (·.range.last) := by
  rw [getLast?_append_pieces before htiles, List.getLast?_concat, Option.map_some]

/-- **As long as no record is stored in part, cutting the records changes nothing** about which
addresses are covered. -/
theorem covers_iff (htiles : ∀ pair ∈ pairs, Range.Tiles pair.1.range (pair.2.map (·.range)))
    (hends : before.getLast?.map (·.range.last) = before'.getLast?.map (·.range.last))
    (hwhole : ∀ i ∈ account failFast before pairs, i.Whole) (a : Address) :
    (∃ piece ∈ (account failFast before pairs).flatMap Intake.stored,
        piece.range.contains a = true) ↔
      ∃ record ∈ (account failFast before' (pairs.map fun pair =>
        (pair.1, [pair.1]))).flatMap Intake.stored, record.range.contains a = true := by
  induction pairs generalizing before before' with
  | nil => rfl
  | cons pair pairs ih =>
    obtain ⟨record, pieces⟩ := pair
    obtain ⟨hpair, htiles⟩ := List.forall_mem_cons.1 htiles
    have hsame : Record.Follows before record ↔ Record.Follows before' record :=
      Record.follows_congr hends
    rw [List.map_cons]
    by_cases hfollows : Record.Follows before record
    · rw [account_of_follows hpair hfollows] at hwhole ⊢
      rw [account_of_follows (Range.Tiles.whole record.range) (hsame.1 hfollows),
        List.flatMap_cons, List.flatMap_cons]
      simp only [List.mem_append, or_and_right, exists_or]
      have hwhole := (List.forall_mem_cons.1 hwhole).2
      refine or_congr ?_ (ih htiles (getLast?_append_pieces_eq hpair) hwhole)
      simpa using hpair.exists_contains_iff a
    · have hnot : ¬ Record.Follows before' record := hsame.not.1 hfollows
      cases failFast with
      | true => rw [account_of_stop ⟨rfl, hfollows⟩, account_of_stop ⟨rfl, hnot⟩]
      | false =>
        have hfirst := hwhole _ (by rw [account_of_skip]; exact List.mem_cons_self)
        rw [account_of_none (not_follows_of_whole hpair hfirst hfollows)] at hwhole ⊢
        rw [account_of_none (List.forall_mem_singleton.2 hnot)]
        exact ih htiles hends (List.forall_mem_cons.1 hwhole).2

/-- A record that is stored in part can be the last of an account only if it is the last at all. -/
theorem straddles_of_part {i : Intake} (htiles : Range.Tiles record.range (pieces.map (·.range)))
    (heq : account failFast before ((record, pieces) :: pairs) = [i]) (hpart : ¬ i.Whole) :
    i = ⟨record, pieces, pieces.filter fun piece => Record.Follows before piece⟩ ∧
      i.Straddles before ∧ failFast = false ∧ pairs = [] := by
  by_cases hstop : failFast = true ∧ ¬ Record.Follows before record
  · rw [account_of_stop hstop] at heq
    exact absurd heq (by simp)
  have hgo : failFast = true → Record.Follows before record := follows_of_not_stop hstop
  rw [account_of_go hgo] at heq
  obtain ⟨rfl, hrest⟩ := List.cons.inj heq
  have hstraddles := Decidable.not_not.1 ((whole_iff htiles rfl).not.1 hpart)
  have hskip : failFast = false := Bool.eq_false_iff.2 fun hfast => hstraddles.1 (hgo hfast)
  obtain ⟨rest, hall, hend, -⟩ := records_account failFast
    (before ++ pieces.filter fun piece => Record.Follows before piece) pairs
  rw [hrest, hend hskip] at hall
  exact ⟨rfl, hstraddles, hskip, List.map_eq_nil_iff.1 hall⟩

/-- **Where a record is stored in part for the first time, cutting it makes a difference**: as long
as nothing comes after it, an address is covered that is not covered otherwise. -/
theorem exists_covers_of_part (htiles : ∀ pair ∈ pairs,
      Range.Tiles pair.1.range (pair.2.map (·.range)))
    (hends : before.getLast?.map (·.range.last) = before'.getLast?.map (·.range.last))
    {front : List Intake} {i : Intake} (heq : account failFast before pairs = front ++ [i])
    (hwhole : ∀ j ∈ front, j.Whole) (hpart : ¬ i.Whole) :
    ∃ a, (∀ last ∈ before.getLast?, last.range.last < a) ∧
      (∃ piece ∈ i.stored, piece.range.contains a = true) ∧
      ∀ record ∈ (account failFast before' (pairs.map fun pair =>
        (pair.1, [pair.1]))).flatMap Intake.stored, ¬ record.range.contains a = true := by
  induction pairs generalizing before before' front with
  | nil => exact absurd heq (by simp [account])
  | cons pair pairs ih =>
    obtain ⟨record, pieces⟩ := pair
    obtain ⟨hpair, htiles⟩ := List.forall_mem_cons.1 htiles
    have hsame : Record.Follows before record ↔ Record.Follows before' record :=
      Record.follows_congr hends
    rw [List.map_cons]
    cases front with
    | nil =>
      obtain ⟨rfl, ⟨hnot, piece, hpiece, hfollows⟩, rfl, rfl⟩ := straddles_of_part hpair heq hpart
      refine ⟨piece.range.first, hfollows, ⟨piece, ?_, piece.range.contains_first⟩, ?_⟩
      · exact List.mem_filter.2 ⟨hpiece, decide_eq_true hfollows⟩
      · rw [account_of_none (List.forall_mem_singleton.2 (hsame.not.1 hnot))]
        exact fun _ h => nomatch h
    | cons j front =>
      by_cases hfollows : Record.Follows before record
      · rw [account_of_follows hpair hfollows] at heq
        rw [account_of_follows (Range.Tiles.whole record.range) (hsame.1 hfollows)]
        obtain ⟨-, hrest⟩ := List.cons.inj heq
        obtain ⟨a, habove, hcovered, hopen⟩ :=
          ih htiles (getLast?_append_pieces_eq hpair) hrest (List.forall_mem_cons.1 hwhole).2
        have hbehind : record.range.last < a := by
          obtain ⟨last, hlast, hlast'⟩ := Option.map_eq_some_iff.1
            (getLast?_append_pieces before hpair)
          exact hlast' ▸ habove last hlast
        refine ⟨a, fun last hlast => ?_, hcovered,
          List.forall_mem_cons.2 ⟨fun hcontains => ?_, hopen⟩⟩
        · exact Nat.lt_trans (hfollows last hlast)
            (Nat.lt_of_le_of_lt record.range.first_le_last hbehind)
        · exact Address.not_lt.2 (Span.contains_iff.1 hcontains).2 hbehind
      · cases failFast with
        | true =>
          rw [account_of_stop ⟨rfl, hfollows⟩] at heq
          exact absurd heq (by simp)
        | false =>
          have hsplit := heq
          rw [account_of_skip] at hsplit
          obtain ⟨rfl, -⟩ := List.cons.inj hsplit
          obtain ⟨hfirst, hwhole⟩ := List.forall_mem_cons.1 hwhole
          rw [account_of_none (not_follows_of_whole hpair hfirst hfollows)] at heq
          rw [account_of_none (List.forall_mem_singleton.2 (hsame.not.1 hfollows))]
          exact ih htiles hends (List.cons.inj heq).2 hwhole

end

end Intake

end IpAtlas
