import IpAtlas.Proofs.Ingest
import IpAtlas.Proofs.Intake
import IpAtlas.Proofs.Overlay.Sweep

/-!
# What a source leaves of each of its records

A run with an overlay hands the pieces of a record to its builder one by one.  What is stored of
each record, whichever way the run is driven, is what the account of the records says.

## What is here

* `Run.cuttings` — records with the pieces that an overlay cuts them into.
* `Run.Open`, `Run.Open.insert`, `Run.Open.feed` — a run stores what the account says.
* `Run.stored_by_record` — whole ingestions, in batches or line by line.
* `Run.stored_part_of_record` — a source that leaves part of a record.
-/

set_option autoImplicit false

namespace IpAtlas

/-! ## Pieces -/

namespace Run

variable {σ α : Type}

/-- Records with the pieces that an overlay cuts them into, one record after the other. -/
def cuttings (overlay : Option (Sweep α)) : List Record → List (Record × List Record)
  | [] => []
  | record :: records =>
    match overlay with
    | none => (record, [record]) :: cuttings none records
    | some s => (record, (s.decorate record).1) :: cuttings (some (s.decorate record).2.1) records

theorem cuttings_none (records : List Record) :
    cuttings (none : Option (Sweep α)) records = records.map fun record => (record, [record]) := by
  induction records with
  | nil => rfl
  | cons record records ih => rw [cuttings, ih, List.map_cons]

theorem records_cuttings (overlay : Option (Sweep α)) (records : List Record) :
    (cuttings overlay records).map Prod.fst = records := by
  induction records generalizing overlay with
  | nil => rfl
  | cons record records ih =>
    cases overlay with
    | none => exact congrArg _ (ih none)
    | some s => exact congrArg _ (ih _)

/-- The pieces are those of the sweep over all records. -/
theorem pieces_cuttings (s : Sweep α) (records : List Record) :
    (cuttings (some s) records).map Prod.snd = (s.decorateAll records).1 := by
  induction records generalizing s with
  | nil => rfl
  | cons record records ih => exact congrArg _ (ih _)

theorem tiles_cuttings (overlay : Option (Sweep α)) (records : List Record) :
    ∀ pair ∈ cuttings overlay records, Range.Tiles pair.1.range (pair.2.map (·.range)) := by
  induction records generalizing overlay with
  | nil => exact fun _ h => nomatch h
  | cons record records ih =>
    cases overlay with
    | none => exact List.forall_mem_cons.2 ⟨Range.Tiles.whole record.range, ih none⟩
    | some s =>
      refine List.forall_mem_cons.2 ⟨?_, ih _⟩
      have htiles := s.tiles_cutsFrom record record.range
      rw [Sweep.decorate, List.map_map]
      exact htiles

/-- Every piece keeps the line of its record. -/
theorem line_cuttings (overlay : Option (Sweep α)) (records : List Record) :
    ∀ pair ∈ cuttings overlay records, ∀ piece ∈ pair.2, piece.line = pair.1.line := by
  induction records generalizing overlay with
  | nil => exact fun _ h => nomatch h
  | cons record records ih =>
    cases overlay with
    | none => exact List.forall_mem_cons.2 ⟨by simp, ih none⟩
    | some s =>
      refine List.forall_mem_cons.2 ⟨fun piece hpiece => ?_, ih _⟩
      obtain ⟨cut, hcut, rfl⟩ := List.mem_map.1 hpiece
      exact s.line_of_mem_cutsFrom hcut

/-! ## Runs that go on -/

/-- The listener that ends a build at a record out of order, or the one that passes it over. -/
def listenerOf (failFast : Bool) : Listener σ := if failFast then .failFast else .skipping

/-- A run that has stored some records, and goes on. -/
structure Open (failFast : Bool) (stored : List Record) (run : Run σ α) : Prop where
  hasStored : run.builder.HasStored stored
  listener : run.builder.listener = listenerOf failFast
  interrupted : run.interrupted = false
  failure : run.failure = none

section

variable {failFast : Bool} {stored : List Record} {run : Run σ α} {piece record : Record}

theorem Open.remark (h : run.Open failFast stored) (remarks : Journal) :
    ({ run with remarks } : Run σ α).Open failFast stored :=
  ⟨h.hasStored, h.listener, h.interrupted, h.failure⟩

theorem Open.absorb_of_follows (h : run.Open failFast stored)
    (hfollows : Record.Follows stored piece) :
    (run.absorb (run.builder.insert piece)).Open failFast (stored ++ [piece]) := by
  obtain ⟨draft, hinsert, hstored⟩ := h.hasStored.insert_of_follows hfollows
  refine ⟨hstored, ?_, ?_, ?_⟩
  · rw [hinsert]
    exact h.listener
  · rw [hinsert, absorb, Builder.accept, h.interrupted, h.listener, listenerOf]
    cases failFast <;> rfl
  · rw [hinsert]
    rfl

theorem Open.absorb_of_skips (h : run.Open false stored)
    (hnot : ¬ Record.Follows stored piece) :
    (run.absorb (run.builder.insert piece)).Open false stored := by
  obtain ⟨last, hinsert, hstored⟩ := h.hasStored.insert_of_not_follows hnot
  refine ⟨hstored, ?_, ?_, ?_⟩
  · rw [hinsert]
    exact h.listener
  · rw [hinsert, absorb, Builder.refuse, h.interrupted, h.listener]
    rfl
  · rw [hinsert, absorb, Builder.refuse, h.listener]
    rfl

theorem Open.absorb_of_fails (h : run.Open true stored) (hnot : ¬ Record.Follows stored piece) :
    (run.absorb (run.builder.insert piece)).builder.HasStored stored ∧
      (run.absorb (run.builder.insert piece)).failure.isSome := by
  obtain ⟨last, hinsert, hstored⟩ := h.hasStored.insert_of_not_follows hnot
  refine ⟨hstored, ?_⟩
  rw [hinsert, absorb, Builder.refuse, h.listener]
  rfl

theorem handOver_cons (s : Sweep α) (cut : Sweep.Cut α) (cuts : List (Sweep.Cut α)) :
    Sweep.handOver Run.store run s (cut :: cuts) =
      match (run.store cut.remarks cut.piece).1.failure with
      | some e => ((run.store cut.remarks cut.piece).1, some e, cut.sweep)
      | none => Sweep.handOver Run.store (run.store cut.remarks cut.piece).1 cut.sweep cuts := by
  have herror : (run.store cut.remarks cut.piece).1.failure =
      (run.store cut.remarks cut.piece).2 := rfl
  rw [Sweep.handOver, herror]
  rcases run.store cut.remarks cut.piece with ⟨next, _ | e⟩ <;> rfl

/-- A run takes the pieces that follow, one after the other. -/
theorem Open.handOver (h : run.Open failFast stored) (s : Sweep α) {cuts : List (Sweep.Cut α)}
    (hasc : Span.Ascending (cuts.map (·.piece.range.toSpan)))
    (hgo : failFast = true → ∀ cut ∈ cuts, Record.Follows stored cut.piece) :
    (Sweep.handOver Run.store run s cuts).1.Open failFast
        (stored ++ (cuts.map (·.piece)).filter fun piece => Record.Follows stored piece) ∧
      (Sweep.handOver Run.store run s cuts).2.2 = s.afterCuts cuts := by
  induction cuts generalizing run stored s with
  | nil => exact ⟨by simpa [Sweep.handOver] using h, rfl⟩
  | cons cut cuts ih =>
    obtain ⟨hvalid, hbehind, hasc⟩ := Span.ascending_cons.1 hasc
    rw [handOver_cons, Sweep.afterCuts_cons, List.map_cons]
    by_cases hfollows : Record.Follows stored cut.piece
    · -- what follows a piece that is stored follows what was stored before it as well
      have hopen : (run.store cut.remarks cut.piece).1.Open failFast (stored ++ [cut.piece]) :=
        (h.remark (run.remarks ++ cut.remarks)).absorb_of_follows hfollows
      have hnext : ∀ c ∈ cuts, Record.Follows (stored ++ [cut.piece]) c.piece := fun c hc =>
        Record.follows_concat.2 (hbehind _ (List.mem_map_of_mem hc))
      have hstill : ∀ c ∈ cuts, Record.Follows stored c.piece := fun c hc =>
        hfollows.mono (Nat.le_trans hvalid.2 (Nat.le_of_lt (hbehind _ (List.mem_map_of_mem hc))))
      have hfilter := Record.filter_follows_eq_self (List.forall_mem_map.2 hnext)
      have hfilter' := Record.filter_follows_eq_self (List.forall_mem_map.2 hstill)
      obtain ⟨hdone, hsweep⟩ := ih hopen cut.sweep hasc fun _ => hnext
      rw [hfilter, List.append_assoc, List.singleton_append] at hdone
      rw [hopen.failure, List.filter_cons_of_pos (by simpa using hfollows), hfilter']
      exact ⟨hdone, hsweep⟩
    · cases failFast with
      | true => exact absurd (hgo rfl cut (by simp)) hfollows
      | false =>
        have hopen : (run.store cut.remarks cut.piece).1.Open false stored :=
          (h.remark (run.remarks ++ cut.remarks)).absorb_of_skips hfollows
        rw [hopen.failure, List.filter_cons_of_neg (by simpa using hfollows)]
        exact ih hopen cut.sweep hasc fun hfast => absurd hfast Bool.false_ne_true

/-- **Of a record those pieces are stored that follow**, unless the build is to end at it. -/
theorem Open.insert (h : run.Open failFast stored)
    (hgo : failFast = true → Record.Follows stored record) {pieces : List Record}
    {rest : List (Record × List Record)} {records : List Record}
    (hcut : cuttings run.overlay (record :: records) = (record, pieces) :: rest) :
    (run.insert record).Open failFast
        (stored ++ pieces.filter fun piece => Record.Follows stored piece) ∧
      cuttings (run.insert record).overlay records = rest := by
  rw [Run.insert]
  cases hoverlay : run.overlay with
  | none =>
    rw [hoverlay, cuttings] at hcut
    obtain ⟨hpair, rfl⟩ := List.cons.inj hcut
    obtain ⟨-, rfl⟩ := Prod.mk.inj hpair
    refine ⟨?_, by rw [show (run.absorb (run.builder.insert record)).overlay = none from hoverlay]⟩
    by_cases hfollows : Record.Follows stored record
    · rw [List.filter_cons_of_pos (by simpa using hfollows)]
      exact h.absorb_of_follows hfollows
    · cases failFast with
      | true => exact absurd (hgo rfl) hfollows
      | false =>
        rw [List.filter_cons_of_neg (by simpa using hfollows), List.filter_nil, List.append_nil]
        exact h.absorb_of_skips hfollows
  | some s =>
    rw [hoverlay, cuttings] at hcut
    obtain ⟨hpair, rfl⟩ := List.cons.inj hcut
    obtain ⟨-, rfl⟩ := Prod.mk.inj hpair
    have htiles := s.tiles_cutsFrom record record.range
    obtain ⟨hopen, hsweep⟩ := h.handOver s (s.ascending_cuts record) fun hfast cut hmem =>
      (hgo hfast).mono (htiles.within _ (List.mem_map_of_mem hmem)).1
    refine ⟨⟨hopen.hasStored, hopen.listener, hopen.interrupted, hopen.failure⟩, ?_⟩
    have hafter : (s.decorate record).2.1 = s.afterCuts (s.cuts record) := rfl
    rw [hafter, ← hsweep]
    rfl

/-- **Of a record at which the build ends nothing is stored.** -/
theorem Open.insert_of_stop (h : run.Open true stored) (hnot : ¬ Record.Follows stored record) :
    (run.insert record).builder.HasStored stored ∧ (run.insert record).failure.isSome := by
  rw [Run.insert]
  cases run.overlay with
  | none => exact h.absorb_of_fails hnot
  | some s =>
    have htiles := s.tiles_cutsFrom record record.range
    cases hcuts : s.cuts record with
    | nil => exact absurd hcuts (s.cuts_ne_nil record)
    | cons cut cuts =>
      have hfirst : cut.piece.range.first = record.range.first := by
        have hends := htiles.ends.1
        rw [← Sweep.cuts, hcuts] at hends
        exact Option.some_inj.1 hends
      have hpiece : ¬ Record.Follows stored cut.piece := by
        rw [Record.Follows, hfirst]
        exact hnot
      have hstopped : (run.store cut.remarks cut.piece).1.builder.HasStored stored ∧
          (run.store cut.remarks cut.piece).1.failure.isSome :=
        (h.remark (run.remarks ++ cut.remarks)).absorb_of_fails hpiece
      obtain ⟨e, he⟩ := Option.isSome_iff_exists.1 hstopped.2
      simp only [Sweep.feed, hcuts, handOver_cons, he]
      exact ⟨hstopped.1, rfl⟩

theorem Open.reportParseError (h : run.Open failFast stored) (e : ParseError) :
    (run.absorb (run.builder.reportParseError e)).Open failFast stored := by
  obtain ⟨draft, hphase, -⟩ := h.hasStored.collecting
  refine ⟨h.hasStored.reportParseError e, ?_, ?_, ?_⟩ <;>
    rw [Builder.reportParseError, hphase, h.listener, listenerOf]
  · cases failFast <;> rfl
  · rw [absorb, h.interrupted]
    cases failFast <;> rfl
  · cases failFast <;> rfl

theorem Open.step_ok (h : run.Open failFast stored) (record : Record) :
    run.step (.ok record) = run.insert record := by
  rw [Run.step, heed_of_not_interrupted h.interrupted, h.failure]
  rfl

theorem Open.step_error (h : run.Open failFast stored) (e : ParseError) :
    run.step (.error e) = run.absorb (run.builder.reportParseError e) := by
  rw [Run.step, heed_of_not_interrupted h.interrupted, h.failure]
  rfl

theorem exists_cuttings_cons (overlay : Option (Sweep α)) (record : Record)
    (records : List Record) :
    ∃ pieces rest, cuttings overlay (record :: records) = (record, pieces) :: rest := by
  cases overlay with
  | none => exact ⟨_, _, rfl⟩
  | some s => exact ⟨_, _, rfl⟩

/-- A run that has stored some records and is over, or goes on: it has come to what the account of
the records says. -/
theorem Open.feed (h : run.Open failFast stored) (results : List LineResult) :
    (run.feed results).builder.HasStored (stored ++
        (Intake.account failFast stored
          (cuttings run.overlay (Builder.recordsOf results))).flatMap Intake.stored) ∧
      ((run.feed results).failure.isSome ∨ (run.feed results).interrupted = false) := by
  induction results generalizing run stored with
  | nil =>
    have hnil : run.feed [] = run := rfl
    rw [hnil]
    refine ⟨?_, Or.inr h.interrupted⟩
    simpa [Builder.recordsOf, cuttings, Intake.account] using h.hasStored
  | cons result results ih =>
    rw [Run.feed, List.foldl_cons, ← Run.feed]
    cases result with
    | error e =>
      rw [h.step_error]
      exact ih (h.reportParseError e)
    | ok record =>
      have hrecords : Builder.recordsOf (.ok record :: results) =
          record :: Builder.recordsOf results := rfl
      obtain ⟨pieces, rest, hcut⟩ :=
        exists_cuttings_cons run.overlay record (Builder.recordsOf results)
      rw [h.step_ok, hrecords, hcut]
      by_cases hstop : failFast = true ∧ ¬ Record.Follows stored record
      · obtain ⟨hfast, hnot⟩ := hstop
        subst hfast
        obtain ⟨hstored, hfailure⟩ := h.insert_of_stop hnot
        rw [Intake.account_of_stop ⟨rfl, hnot⟩, List.flatMap_nil, List.append_nil,
          feed_of_failure hfailure]
        exact ⟨hstored, Or.inl hfailure⟩
      · have hgo : failFast = true → Record.Follows stored record :=
          Intake.follows_of_not_stop hstop
        obtain ⟨hopen, hrest⟩ := h.insert hgo hcut
        have hmore := ih hopen
        rw [hrest, List.append_assoc] at hmore
        rw [Intake.account_of_go hgo]
        exact hmore

/-! ## Whole ingestions -/

/-- The records of a source. -/
def recordsOf (reader : LineReader) (keepSource : Bool) (source : Stream) : List Record :=
  Builder.recordsOf (source.lines.map (reader keepSource))

/-- What becomes of some records, when nothing is stored before. -/
def intakes (failFast : Bool) (run : Run σ α) (records : List Record) : List Intake :=
  Intake.account failFast [] (cuttings run.overlay records)

/-- A run without its overlay. -/
def plain (run : Run σ α) : Run σ α := { run with overlay := none }

theorem Open.plain (h : run.Open failFast stored) : run.plain.Open failFast stored :=
  ⟨h.hasStored, h.listener, h.interrupted, h.failure⟩

/-- Without an overlay each record is its only piece. -/
theorem intakes_plain (failFast : Bool) (run : Run σ α) (records : List Record) :
    run.plain.intakes failFast records =
      Intake.account failFast [] ((cuttings run.overlay records).map fun pair =>
        (pair.1, [pair.1])) := by
  have hrecords := records_cuttings run.overlay records
  rw [intakes, plain, cuttings_none]
  conv_lhs => rw [← hrecords, List.map_map]
  rfl

/-- A run that is to be interrupted gives up what it has stored. -/
theorem stored_close_of_interrupted (h : run.interrupted = true) (hfailure : run.failure = none)
    (fault : Option IoError) : (run.close fault).builder.stored = [] := by
  have hheed : run.heed.builder = (run.builder.interrupt run.disk).1.builder := by
    rw [Run.heed, if_pos ⟨h, by rw [hfailure]; rfl⟩]
    rfl
  have hclose : (run.close fault).builder = run.heed.builder := rfl
  rw [hclose, hheed, Builder.interrupt]
  cases hphase : run.builder.phase with
  | collecting draft => rfl
  | finished => simp only [Builder.stored, hphase]
  | interrupted => simp only [Builder.stored, hphase]

theorem stored_ingestLines_of_interrupted (h : run.interrupted = true)
    (hfailure : run.failure = none) (reader : LineReader) (keepSource : Bool) (source : Stream) :
    (run.ingestLines reader keepSource source).builder.stored = [] := by
  rw [ingestLines_stream, close_feed_of_over (Or.inr h)]
  exact stored_close_of_interrupted h hfailure _

/-- A run that is not interrupted stores what its account says. -/
theorem Open.hasStored_ingestLines (h : run.Open failFast []) (reader : LineReader)
    (keepSource : Bool) (source : Stream) :
    (run.ingestLines reader keepSource source).builder.HasStored
      ((run.intakes failFast (recordsOf reader keepSource source)).flatMap Intake.stored) := by
  obtain ⟨hstored, hover⟩ := h.feed (source.lines.map (reader keepSource))
  have hheed : (run.feed (source.lines.map (reader keepSource))).heed =
      run.feed (source.lines.map (reader keepSource)) := by
    rcases hover with hfailure | hinterrupted
    · exact heed_of_failure hfailure
    · exact heed_of_not_interrupted hinterrupted
  rw [ingestLines_stream, close, hheed]
  exact hstored

/-- An address that is covered by something a builder has stored. -/
def Covered (b : Builder σ) (a : Address) : Prop := ∃ e ∈ b.stored, e.span.contains a = true

/-- The addresses covered are those of what becomes of the records. -/
theorem Open.covered_iff (h : run.Open failFast []) (reader : LineReader) (keepSource : Bool)
    (source : Stream) (a : Address) :
    Covered (run.ingestLines reader keepSource source).builder a ↔
      ∃ record ∈ (run.intakes failFast (recordsOf reader keepSource source)).flatMap Intake.stored,
        record.range.contains a = true := by
  rw [Covered, (h.hasStored_ingestLines reader keepSource source).stored_eq]
  simp [Builder.entryOf]

/-- **An overlay changes nothing about which addresses are covered** if no record is stored in
part. -/
theorem Open.covered_iff_plain (h : run.Open failFast []) (reader : LineReader) (keepSource : Bool)
    (source : Stream)
    (hwhole : ∀ i ∈ run.intakes failFast (recordsOf reader keepSource source), i.Whole)
    (a : Address) :
    Covered (run.ingestLines reader keepSource source).builder a ↔
      Covered (run.plain.ingestLines reader keepSource source).builder a := by
  rw [h.covered_iff, h.plain.covered_iff, intakes_plain]
  exact Intake.covers_iff (tiles_cuttings _ _) rfl hwhole a

/-- **It does if the last record is the only one that is stored in part.** -/
theorem Open.exists_covered_of_part (h : run.Open failFast []) (reader : LineReader)
    (keepSource : Bool) (source : Stream) {front : List Intake} {i : Intake}
    (hintakes : run.intakes failFast (recordsOf reader keepSource source) = front ++ [i])
    (hwhole : ∀ j ∈ front, j.Whole) (hpart : ¬ i.Whole) :
    ∃ a, Covered (run.ingestLines reader keepSource source).builder a ∧
      ¬ Covered (run.plain.ingestLines reader keepSource source).builder a := by
  have hends : ([] : List Record).getLast?.map (·.range.last) =
      ([] : List Record).getLast?.map (·.range.last) := rfl
  obtain ⟨a, -, ⟨piece, hpiece, hcovered⟩, hopen⟩ :=
    Intake.exists_covers_of_part (tiles_cuttings _ _) hends hintakes hwhole hpart
  refine ⟨a, ?_, ?_⟩
  · rw [h.covered_iff, hintakes]
    exact ⟨piece, List.mem_flatMap.2 ⟨i, by simp, hpiece⟩, hcovered⟩
  · rw [h.plain.covered_iff, intakes_plain]
    exact fun ⟨record, hrecord, hcontains⟩ => hopen record hrecord hcontains

end

theorem follows_of_intakes_eq {failFast : Bool} {run : Run σ α} {records : List Record}
    {front back : List Intake} {i : Intake}
    (h : run.intakes failFast records = front ++ i :: back) (hfast : failFast = true) :
    Record.Follows (front.flatMap Intake.stored) i.record := by
  simpa using (Intake.of_account_eq h).2.1 hfast

theorem accounts_intakes (failFast : Bool) (run : Run σ α) (records : List Record) :
    Intake.Accounts failFast records (run.intakes failFast records) := by
  have hmem : ∀ i ∈ run.intakes failFast records,
      (i.record, i.pieces) ∈ cuttings run.overlay records := fun i hi => by
    obtain ⟨front, back, hsplit⟩ := List.append_of_mem hi
    exact (Intake.of_account_eq hsplit).1
  refine ⟨?_, fun i hi => tiles_cuttings _ _ _ (hmem i hi),
    fun i hi => line_cuttings _ _ _ (hmem i hi), fun front i back hsplit => ?_⟩
  · obtain ⟨rest, hrecords, hall, hnext⟩ :=
      Intake.records_account failFast [] (cuttings run.overlay records)
    rw [records_cuttings] at hrecords
    rw [List.nil_append] at hnext
    exact ⟨rest, hrecords, hall, hnext⟩
  · simpa using (Intake.of_account_eq hsplit).2.2

/-- **What a source leaves of each record.**  The source is ingested line by line or in batches, by
a listener that fails fast or one that skips, with any overlay.  If an interruption was asked for
before, nothing is stored.  Otherwise the pieces that are stored are those of the account, record by
record, and all or nothing is stored of a record exactly if it does not straddle the end of what was
stored of the records before it.  A listener that fails fast never comes to one that does.  As long
as no record is stored in part, the addresses covered are those that are covered without the
overlay; where the last record is the only one, they are not. -/
theorem stored_by_record {failFast : Bool} {run final : Run σ α} {reader : LineReader}
    {settings : Settings} {label : Path} {source : Stream} {records : List Record}
    (hfresh : run.builder.HasStored []) (hlistener : run.builder.listener = listenerOf failFast)
    (hfailure : run.failure = none)
    (hrecords : records = recordsOf reader settings.keepSource source)
    (hfinal : final = run.ingestLines reader settings.keepSource source ∨
      run.MayIngest reader settings label source final) :
    (run.interrupted = true → final.builder.stored = []) ∧
      (run.interrupted = false →
        final.builder.HasStored ((run.intakes failFast records).flatMap Intake.stored)) ∧
      Intake.Accounts failFast records (run.intakes failFast records) ∧
      (∀ front i back, run.intakes failFast records = front ++ i :: back →
        (i.Whole ↔ ¬ i.Straddles (front.flatMap Intake.stored)) ∧
          (failFast = true → Range.Tiles i.record.range (i.stored.map (·.range)))) ∧
      ((∀ i ∈ run.intakes failFast records, i.Whole) → ∀ a, Covered final.builder a ↔
        Covered (run.plain.ingestLines reader settings.keepSource source).builder a) ∧
      (run.interrupted = false → ∀ front i, run.intakes failFast records = front ++ [i] →
        (∀ j ∈ front, j.Whole) → ¬ i.Whole → ∃ a, Covered final.builder a ∧
          ¬ Covered (run.plain.ingestLines reader settings.keepSource source).builder a) := by
  subst hrecords
  have hbuilder : final.builder =
      (run.ingestLines reader settings.keepSource source).builder := by
    rcases hfinal with rfl | hbatches
    · rfl
    · exact hbatches.alike.builder
  have hopen (hint : run.interrupted = false) : run.Open failFast [] :=
    ⟨hfresh, hlistener, hint, hfailure⟩
  have haccounts := accounts_intakes failFast run (recordsOf reader settings.keepSource source)
  rw [hbuilder]
  refine ⟨fun hint => stored_ingestLines_of_interrupted hint hfailure _ _ _,
    fun hint => (hopen hint).hasStored_ingestLines _ _ _, haccounts, fun front i back hsplit => ?_,
    fun hwhole a => ?_,
    fun hint front i hsplit => (hopen hint).exists_covered_of_part _ _ _ hsplit⟩
  · have hi : i ∈ run.intakes failFast (recordsOf reader settings.keepSource source) := by
      rw [hsplit]
      simp
    have hstored := haccounts.stored front i back hsplit
    refine ⟨Intake.whole_iff (haccounts.tiles i hi) hstored, fun hfast => ?_⟩
    rw [hstored, Intake.filter_of_follows (haccounts.tiles i hi)
      (follows_of_intakes_eq hsplit hfast)]
    exact haccounts.tiles i hi
  · cases hint : run.interrupted with
    | true =>
      have hplain : run.plain.interrupted = true := hint
      rw [Covered, Covered, stored_ingestLines_of_interrupted hint hfailure,
        stored_ingestLines_of_interrupted hplain hfailure]
    | false => exact (hopen hint).covered_iff_plain _ _ _ hwhole a

/-- A source whose second line starts inside the first one: with a mark behind the end of the first,
the second is passed over in part only, and addresses are covered that are not without the mark. -/
theorem stored_part_of_record :
    ∃ (run : Run Unit Flag) (source : Stream), run.builder.listener = Listener.skipping ∧
      run.result = .ok () ∧
      (∃ i ∈ run.intakes false (recordsOf Layout.lite.reader false source),
        ¬ i.Whole ∧ i.stored ≠ []) ∧
      ∃ a, Covered (run.ingestLines Layout.lite.reader false source).builder a ∧
        ¬ Covered (run.plain.ingestLines Layout.lite.reader false source).builder a := by
  let address (n : Nat) (h : n < Family.v4.size) : Address := ⟨.v4, n, h⟩
  let mark : Mark Flag := ⟨⟨address 21 (by decide), address 25 (by decide)⟩, .yes⟩
  let run : Run Unit Flag :=
    { builder :=
        { provider := .ip2location
          storage := .memory
          listener := listenerOf false
          state := ()
          phase := .collecting (.memory {}) }
      overlay := some (Sweep.ofTracks [Track.ofMarks [[mark]]] .privateNetwork)
      disk := {} }
  let source : Stream := ⟨"10,20,US,x,y,z\n15,30,US,x,y,z\n".toUTF8.toList, none⟩
  have hfresh : run.builder.HasStored [] := ⟨⟨_, rfl, rfl⟩, rfl, rfl, Span.ascending_nil⟩
  obtain ⟨-, -, -, heach, -, hdiffer⟩ := @stored_by_record Unit Flag false run _
    Layout.lite.reader {} ⟨"lines"⟩ source _ hfresh rfl rfl rfl (Or.inl rfl)
  have hlength : (run.intakes false (recordsOf Layout.lite.reader false source)).length = 2 := by
    decide +kernel
  have hstraddles : ∀ i ∈ (run.intakes false (recordsOf Layout.lite.reader false source)).tail,
      i.Straddles (((run.intakes false
        (recordsOf Layout.lite.reader false source)).take 1).flatMap Intake.stored) := by
    decide +kernel
  have hsome : ∀ i ∈ run.intakes false (recordsOf Layout.lite.reader false source),
      i.stored ≠ [] := by
    decide +kernel
  obtain ⟨first, second, hpair⟩ := List.length_eq_two.1 hlength
  have hfirst : first.Whole :=
    (heach [] first [second] hpair).1.2 fun h => h.1 (by simp [Record.Follows])
  have hsecond : ¬ second.Whole := by
    rw [(heach [first] second [] hpair).1, Decidable.not_not]
    rw [hpair] at hstraddles
    exact hstraddles second (by simp)
  refine ⟨run, source, rfl, rfl, ⟨second, ?_, hsecond, hsome second ?_⟩,
    hdiffer rfl [first] second hpair (by simpa using hfirst) hsecond⟩ <;>
  · rw [hpair]
    simp

end Run

end IpAtlas
