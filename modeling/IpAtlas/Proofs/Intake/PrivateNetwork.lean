import IpAtlas.Overlay.VpnTable
import IpAtlas.Proofs.Intake.InOrder

/-!
# What tables of private networks change

A source whose records are in order is ingested twice, once as it is and once with tables of private
networks laid over it.  The two databases know the same addresses, and of each they know the same,
but for the flag and for how far the answer holds: with the tables, the flag is that of the range
the tables gave for the address, and the answer holds for a part of the range that it holds for
without them.

Nothing here depends on how the source is read, on who listens, on where the ranges are kept, or on
what else was looked up.

## What is here

* `Run.Ingests` — the databases that ingesting a source comes to.
* `Run.Ingests.answer_iff` — what they answer, given the pieces of the records.
* `Run.PieceOf`, `Run.pieceOf_cuttings` — the pieces that tables cut records into.
* `Run.answer_privateNetwork` — how the answers compare.
-/

set_option autoImplicit false

namespace IpAtlas

/-! ## Tables -/

/-- Every row of a table that counts bounds a range, and says yes. -/
theorem VpnLayout.of_mem_items {layout : VpnLayout} {path : Path} {source : Stream} {m : Mark Flag}
    (h : .mark m ∈ layout.items path source) : m.span.Valid ∧ m.data = .yes := by
  rw [items, List.mem_append] at h
  rcases h with h | h
  · obtain ⟨line, -, hline⟩ := List.mem_filterMap.1 h
    rw [item?] at hline
    cases hmark : layout.mark? line with
    | error e => simp [hmark] at hline
    | ok found =>
      obtain rfl : found = some m := by simpa [hmark] using hline
      rw [mark?] at hmark
      simp only [bind, Except.bind] at hmark
      split at hmark
      · exact nomatch hmark
      split at hmark
      · split at hmark
        · exact nomatch hmark
        · rename_i range _
          obtain rfl : (⟨range.toSpan, .yes⟩ : Mark Flag) = m := by
            simpa [pure, Except.pure] using hmark
          exact ⟨range.valid, rfl⟩
      · simp [pure, Except.pure] at hmark
  · rw [failure?, Option.mem_toList] at h
    cases hfault : source.fault <;> simp [hfault] at h

/-- Of one collection every policy takes what there is. -/
theorem Policy.select_singleton {α : Type} (policy : Policy) (data : Option α) :
    policy.select [data] = data := by
  cases policy <;> cases data <;> rfl

namespace Run

variable {σ α : Type}

/-! ## Ingestions -/

/-- A database that ingesting a source comes to: from a build that has just been started, line by
line or in batches, with success. -/
inductive Ingests (overlay : Option (Sweep α)) (reader : LineReader) (keepSource : Bool)
    (source : Stream) : Database → Prop where
  | of_finish {σ : Type} {listener : Listener σ} {state : σ} {provider : Provider}
      {storage : Storage} {disk later : Disk} {settings : Settings} {label : Path}
      {run final : Run σ α} {database : Database}
      (hstart : (Builder.start disk provider storage listener state).1 = .ok run.builder)
      (hoverlay : run.overlay = overlay) (hfailure : run.failure = none)
      (hkeep : settings.keepSource = keepSource)
      (hfinal : final = run.ingestLines reader keepSource source ∨
        run.MayIngest reader settings label source final)
      (hresult : final.result = .ok ())
      (hfinish : (final.builder.finish later).1 = .ok database) :
      Ingests overlay reader keepSource source database

variable {overlay : Option (Sweep α)} {reader : LineReader} {keepSource : Bool} {source : Stream}
  {database : Database}

/-- Line by line or in batches, a run comes to the same. -/
theorem same_of_final {run final : Run σ α} {settings : Settings} {label : Path}
    (hkeep : settings.keepSource = keepSource)
    (hfinal : final = run.ingestLines reader keepSource source ∨
      run.MayIngest reader settings label source final) :
    final.failure = (run.ingestLines reader keepSource source).failure ∧
      final.builder = (run.ingestLines reader keepSource source).builder := by
  rcases hfinal with rfl | hbatches
  · exact ⟨rfl, rfl⟩
  · have halike := hbatches.alike
    rw [hkeep] at halike
    exact ⟨halike.failure, halike.builder⟩

theorem result_eq_ok_iff {run : Run σ α} : run.result = .ok () ↔ run.failure = none := by
  rw [result.eq_def]
  cases run.failure <;> simp

/-- Of a source whose records are in order a database holds every piece. -/
theorem Ingests.exists_hasStored (h : Ingests overlay reader keepSource source database)
    (horder : (recordsOf reader keepSource source).IsChain
      fun r r' => r.range.last < r'.range.first) :
    ∃ (σ : Type) (b : Builder σ) (later : Disk), b.HasStored
        ((cuttings overlay (recordsOf reader keepSource source)).flatMap Prod.snd) ∧
      (b.finish later).1 = .ok database := by
  obtain ⟨hstart, hoverlay, hfailure, hkeep, hfinal, hresult, hfinish⟩ := h
  rename_i σ _ _ _ _ _ later _ _ run final
  have hcollects : run.Collects [] := ⟨Builder.hasStored_of_start hstart, hfailure⟩
  have hlines := (hcollects.ingestLines horder).1
  obtain ⟨hsame, hbuilder⟩ := same_of_final hkeep hfinal
  rw [hoverlay, ← hsame, ← hbuilder] at hlines
  exact ⟨σ, final.builder, later, hlines (result_eq_ok_iff.1 hresult), hfinish⟩

/-! ## Pieces -/

/-- What the tables say of an address: the flag of the range that covers it, and otherwise no. -/
def flagAt (marks : List (Mark Flag)) (a : Address) : Flag :=
  ((Mark.at? marks a).map (·.data)).getD .no

theorem flagAt_eq {marks : List (Mark Flag)} (hasc : Span.Ascending (marks.map Mark.span))
    (a : Address) : (∀ m ∈ marks, m.span.contains a = true → flagAt marks a = m.data) ∧
      ((∀ m ∈ marks, ¬ m.span.contains a = true) → flagAt marks a = .no) := by
  refine ⟨fun m hm hcontains => ?_, fun hnone => ?_⟩
  · rw [flagAt, (Mark.at?_eq_some_iff hasc).2 ⟨hm, hcontains⟩]
    rfl
  · have hat : Mark.at? marks a = none := List.find?_eq_none.2 hnone
    rw [flagAt, hat]
    rfl

/-- A part of a record, with what the tables say throughout that part. -/
structure PieceOf (marks : List (Mark Flag)) (record piece : Record) : Prop where
  within : piece.range.Within record.range
  location : piece.location =
    { record.location with span := piece.range.toSpan, vpn := flagAt marks piece.range.first }
  uniform : Range.Uniform (flagAt marks) piece.range

section

variable {marks : List (Mark Flag)} {policy : Policy} {record piece : Record}
  {pieces records : List Record}

theorem pieceOf_of_overlaid (h : Sweep.Overlaid [marks] .privateNetwork policy record pieces)
    (hpiece : piece ∈ pieces) : PieceOf marks record piece := by
  have hmaximal := (h.mem_iff piece.range).1 (List.mem_map_of_mem hpiece)
  have hflag : policy.select ((Sweep.coverAt [marks] piece.range.first).map (Option.map Mark.data)) =
      (Mark.at? marks piece.range.first).map (·.data) := policy.select_singleton _
  refine ⟨hmaximal.within, ?_, fun a ha => ?_⟩
  · rw [h.location piece hpiece, hflag, flagAt]
    cases Mark.at? marks piece.range.first <;> rfl
  · have hcover : [Mark.at? marks a] = [Mark.at? marks piece.range.first] := hmaximal.uniform a ha
    rw [flagAt, List.singleton_inj.1 hcover]
    rfl

/-- The pieces of a record take as many bytes as the record. -/
theorem PieceOf.fits (h : PieceOf marks record piece)
    (hfits : (Codec.encodeLocation (record.location.rebind record.range.toSpan)).length < 2 ^ 32) :
    (Codec.encodeLocation (piece.location.rebind piece.range.toSpan)).length < 2 ^ 32 := by
  have hends : record.range.contains piece.range.first = true ∧
      record.range.contains piece.range.last = true := by
    have hle := piece.range.first_le_last
    exact ⟨Span.contains_iff.2 ⟨h.within.1, Nat.le_trans hle h.within.2⟩,
      Span.contains_iff.2 ⟨Nat.le_trans h.within.1 hle, h.within.2⟩⟩
  have hrest : piece.location.rebind piece.range.toSpan =
      { record.location.rebind record.range.toSpan with
        span := piece.range.toSpan, vpn := piece.location.vpn } := by
    rw [h.location]
    rfl
  have hlength : (Codec.encodeLocation (piece.location.rebind piece.range.toSpan)).length =
      (Codec.encodeLocation (record.location.rebind record.range.toSpan)).length :=
    Codec.length_encodeLocation_eq (Range.family_eq hends.1)
      ((Range.family_eq hends.2).trans record.range.valid.1) hrest
  rwa [hlength]

end

/-! ## Answers -/

/-- **What a database of a source answers** whose records are in order. -/
theorem Ingests.answer_iff (h : Ingests overlay reader keepSource source database)
    (horder : (recordsOf reader keepSource source).IsChain
      fun r r' => r.range.last < r'.range.first) {pieces : List Record}
    (hpieces : (cuttings overlay (recordsOf reader keepSource source)).flatMap Prod.snd = pieces)
    (hfits : ∀ piece ∈ pieces,
      (Codec.encodeLocation (piece.location.rebind piece.range.toSpan)).length < 2 ^ 32)
    (asked : List Address) (a : Address) (l : Location) :
    (database.after asked).answer a = some l ↔ ∃ piece ∈ pieces,
      piece.range.contains a = true ∧ l = piece.location.rebind piece.range.toSpan := by
  obtain ⟨σ, b, later, hstored, hfinish⟩ := h.exists_hasStored horder
  rw [hpieces] at hstored
  exact hstored.answer_after_eq_some_iff hfits hfinish asked

section

variable {tables : List (List (Item Flag))} {policy : Policy}

/-- The sweep over some tables as one collection. -/
def sweepOf (tables : List (List (Item Flag))) (policy : Policy) : Sweep Flag :=
  Sweep.ofTracks [Track.ofSources tables] .privateNetwork policy

theorem ascending_marks (hvalid : ∀ table ∈ tables, ∀ m, Item.mark m ∈ table → m.span.Valid) :
    Span.Ascending ((Track.ofSources tables).marks.map Mark.span) := by
  refine Track.ascending_ofSources fun m hm => ?_
  obtain ⟨table, htable, hmem⟩ := Track.exists_source_of_mem_merge none tables hm
  exact hvalid table htable m hmem

/-- Each record in order with its pieces, as the marks of the tables say. -/
theorem overlaid_cuttings (policy : Policy)
    (hvalid : ∀ table ∈ tables, ∀ m, Item.mark m ∈ table → m.span.Valid)
    {records : List Record} (horder : records.IsChain fun r r' => r.range.last < r'.range.first) :
    ∀ pair ∈ cuttings (some (sweepOf tables policy)) records,
      Sweep.Overlaid [(Track.ofSources tables).marks] .privateNetwork policy pair.1 pair.2 := by
  have hasc : ∀ marks ∈ [(Track.ofSources tables).marks],
      Span.Ascending (marks.map Mark.span) :=
    List.forall_mem_singleton.2 (ascending_marks hvalid)
  have hready : ∀ a, Sweep.Ready [(Track.ofSources tables).marks] a (sweepOf tables policy) :=
    fun a => List.Forall₂.cons (Cursor.ready_start _ a) List.Forall₂.nil
  have hall := Sweep.overlaid_of_ready hasc horder fun record _ => hready record.range.first
  rw [← pieces_cuttings, List.forall₂_map_right_iff,
    ← records_cuttings (some (sweepOf tables policy)) records, List.forall₂_map_left_iff,
    records_cuttings, List.forall₂_same] at hall
  exact hall

/-- Every piece is part of a record, and together they leave nothing of the records out. -/
theorem pieceOf_cuttings (policy : Policy)
    (hvalid : ∀ table ∈ tables, ∀ m, Item.mark m ∈ table → m.span.Valid)
    {records pieces : List Record}
    (horder : records.IsChain fun r r' => r.range.last < r'.range.first)
    (hpieces : (cuttings (some (sweepOf tables policy)) records).flatMap Prod.snd = pieces) :
    (∀ piece ∈ pieces, ∃ record ∈ records, PieceOf (Track.ofSources tables).marks record piece) ∧
      ∀ record ∈ records, ∀ a, record.range.contains a = true → ∃ piece ∈ pieces,
        PieceOf (Track.ofSources tables).marks record piece ∧ piece.range.contains a = true := by
  have hall := overlaid_cuttings policy hvalid horder
  subst hpieces
  refine ⟨fun piece hpiece => ?_, fun record hrecord a ha => ?_⟩
  · obtain ⟨pair, hpair, hmem⟩ := List.mem_flatMap.1 hpiece
    refine ⟨pair.1, ?_, pieceOf_of_overlaid (hall pair hpair) hmem⟩
    rw [← records_cuttings (some (sweepOf tables policy)) records]
    exact List.mem_map_of_mem hpair
  · rw [← records_cuttings (some (sweepOf tables policy)) records] at hrecord
    obtain ⟨pair, hpair, rfl⟩ := List.mem_map.1 hrecord
    obtain ⟨r, hr, hcontains⟩ := ((hall pair hpair).tiles.exists_contains_iff a).2 ha
    obtain ⟨piece, hpiece, rfl⟩ := List.mem_map.1 hr
    exact ⟨piece, List.mem_flatMap.2 ⟨pair, hpair, hpiece⟩,
      pieceOf_of_overlaid (hall pair hpair) hpiece, hcontains⟩

end

/-- **What tables of private networks change.**  A source whose records are in order is ingested as
it is and with tables laid over it, from a fresh builder each, line by line or in batches, for
whatever listener, into memory or an index file.  Undisturbed, neither fails unless the source does.
The two databases answer for the same addresses, whatever else was looked up.  With the tables the
answer is the one without, but for its flag and its span: the flag is that of the range that the
tables gave for the address, yes if it comes from a row, or no if there is none; and the span holds
the address, lies in the other span, and has this same answer throughout. -/
theorem answer_privateNetwork {tables : List (List (Item Flag))} {policy : Policy}
    {reader : LineReader} {keepSource : Bool} {source : Stream} {plain laid : Database}
    (hvalid : ∀ table ∈ tables, ∀ m, Item.mark m ∈ table → m.span.Valid)
    (horder : (recordsOf reader keepSource source).IsChain
      fun r r' => r.range.last < r'.range.first)
    (hfits : ∀ record ∈ recordsOf reader keepSource source,
      (Codec.encodeLocation (record.location.rebind record.range.toSpan)).length < 2 ^ 32)
    (hplain : Ingests (none : Option (Sweep Flag)) reader keepSource source plain)
    (hlaid : Ingests (some (Sweep.ofTracks [Track.ofSources tables] .privateNetwork policy)) reader
      keepSource source laid) :
    (∀ (σ : Type) (run final : Run σ Flag) (settings : Settings) (label : Path), run.Collects [] →
      run.Undisturbed → settings.keepSource = keepSource →
      (final = run.ingestLines reader keepSource source ∨
        run.MayIngest reader settings label source final) →
      final.failure = source.fault.map .io) ∧
    ((∀ table ∈ tables, ∃ layout path rows, table = VpnLayout.items layout path rows) →
      ∀ m ∈ (Track.ofSources tables).drain.1, m.data = .yes) ∧
    ∀ asked asked' a, ((laid.after asked').answer a = none ↔ (plain.after asked).answer a = none) ∧
      ∀ l, (plain.after asked).answer a = some l → ∃ l', (laid.after asked').answer a = some l' ∧
        l' = { l with span := l'.span, vpn := l'.vpn } ∧
        (∀ m ∈ (Track.ofSources tables).drain.1, m.span.contains a = true → l'.vpn = m.data) ∧
        ((∀ m ∈ (Track.ofSources tables).drain.1, ¬ m.span.contains a = true) → l'.vpn = .no) ∧
        l'.span.contains a = true ∧ l.span.first ≤ l'.span.first ∧ l'.span.last ≤ l.span.last ∧
        ∀ b, l'.span.contains b = true → (laid.after asked').answer b = some l' := by
  refine ⟨fun σ run final settings label hcollects hquiet hkeep hfinal => ?_, fun hrows m hm => ?_,
    fun asked asked' a => ?_⟩
  · rw [(same_of_final hkeep hfinal).1]
    exact (hcollects.ingestLines horder).2 hquiet
  · obtain ⟨table, htable, hmem⟩ := Track.exists_source_of_mem_merge none tables hm
    obtain ⟨layout, path, rows, rfl⟩ := hrows table htable
    exact (VpnLayout.of_mem_items hmem).2
  obtain ⟨hparts, hcover⟩ := pieceOf_cuttings policy hvalid horder rfl
  have hwhole : (cuttings (none : Option (Sweep Flag))
      (recordsOf reader keepSource source)).flatMap Prod.snd = recordsOf reader keepSource source := by
    rw [cuttings_none, List.flatMap_map]
    simp
  have hplain := hplain.answer_iff horder hwhole hfits asked
  have hlaid := hlaid.answer_iff horder rfl (fun piece hpiece => by
    obtain ⟨record, hrecord, hpart⟩ := hparts piece hpiece
    exact hpart.fits (hfits record hrecord)) asked'
  have hfound : ∀ l, (plain.after asked).answer a = some l →
      ∃ l', (laid.after asked').answer a = some l' ∧
        l' = { l with span := l'.span, vpn := l'.vpn } ∧
        l'.vpn = flagAt (Track.ofSources tables).marks a ∧
        l'.span.contains a = true ∧ l.span.first ≤ l'.span.first ∧ l'.span.last ≤ l.span.last ∧
        ∀ b, l'.span.contains b = true → (laid.after asked').answer b = some l' := by
    intro l hl
    obtain ⟨record, hrecord, ha, rfl⟩ := (hplain a l).1 hl
    obtain ⟨piece, hpiece, hpart, hin⟩ := hcover record hrecord a ha
    refine ⟨piece.location.rebind piece.range.toSpan,
      (hlaid a _).2 ⟨piece, hpiece, hin, rfl⟩, ?_, ?_, hin, hpart.within.1, hpart.within.2,
      fun b hb => (hlaid b _).2 ⟨piece, hpiece, hb, rfl⟩⟩
    · rw [hpart.location]
      rfl
    · rw [hpart.uniform a hin, hpart.location]
      rfl
  refine ⟨⟨fun hnone => ?_, fun hnone => ?_⟩, fun l hl => ?_⟩
  · cases hanswer : (plain.after asked).answer a with
    | none => rfl
    | some l =>
      obtain ⟨l', hl', -⟩ := hfound l hanswer
      rw [hnone] at hl'
      exact nomatch hl'
  · cases hanswer : (laid.after asked').answer a with
    | none => rfl
    | some l' =>
      obtain ⟨piece, hpiece, ha, -⟩ := (hlaid a l').1 hanswer
      obtain ⟨record, hrecord, hpart⟩ := hparts piece hpiece
      have hin : record.range.contains a = true := by
        have hbounds := Span.contains_iff.1 ha
        exact Span.contains_iff.2 ⟨Nat.le_trans hpart.within.1 hbounds.1,
          Nat.le_trans hbounds.2 hpart.within.2⟩
      rw [(hplain a _).2 ⟨record, hrecord, hin, rfl⟩] at hnone
      exact nomatch hnone
  · obtain ⟨l', hl', hsame, hflag, hrest⟩ := hfound l hl
    obtain ⟨hmarked, hunmarked⟩ := flagAt_eq (ascending_marks hvalid) a
    exact ⟨l', hl', hsame, fun m hm hc => hflag.trans (hmarked m hm hc),
      fun hnone => hflag.trans (hunmarked hnone), hrest⟩

/-- A line with a row of a table inside: the answer for an address of the row holds for the row, and
has its flag. -/
theorem answer_privateNetwork_row :
    ∃ (rows lines : Stream) (plain laid : Database) (a : Address) (l l' : Location),
      let table := VpnLayout.items {} ⟨"rows"⟩ rows
      Ingests (none : Option (Sweep Flag)) Layout.lite.reader false lines plain ∧
        Ingests (some (Sweep.ofTracks [Track.ofSources [table]] .privateNetwork))
          Layout.lite.reader false lines laid ∧
        plain.answer a = some l ∧ laid.answer a = some l' ∧ l'.vpn = .yes ∧
        l' = { l with span := l'.span, vpn := l'.vpn } := by
  let rows : Stream := ⟨"12,15,1\n".toUTF8.toList, none⟩
  let lines : Stream := ⟨"10,20,US,x,y,z\n30,40,US,x,y,z\n".toUTF8.toList, none⟩
  let table := VpnLayout.items {} ⟨"rows"⟩ rows
  let a : Address := ⟨.v4, 13, by decide⟩
  let builder : Builder Unit :=
    { provider := .ip2location, storage := .memory, listener := listenerOf true, state := ()
      phase := .collecting (.memory {}) }
  let run (overlay : Option (Sweep Flag)) : Run Unit Flag := { builder, overlay, disk := {} }
  let sweep : Sweep Flag := Sweep.ofTracks [Track.ofSources [table]] .privateNetwork
  have hvalid : ∀ t ∈ [table], ∀ m, Item.mark m ∈ t → m.span.Valid :=
    List.forall_mem_singleton.2 fun m hm => (VpnLayout.of_mem_items hm).1
  have horder : (recordsOf Layout.lite.reader false lines).IsChain
      fun r r' => r.range.last < r'.range.first := by
    decide +kernel
  have hfits : ∀ record ∈ recordsOf Layout.lite.reader false lines,
      (Codec.encodeLocation (record.location.rebind record.range.toSpan)).length < 2 ^ 32 := by
    decide +kernel
  let final (overlay : Option (Sweep Flag)) : Run Unit Flag :=
    (run overlay).ingest Layout.lite.reader {} ⟨"lines"⟩ lines
  -- nobody interrupts, and the listener is one of the library, so both runs succeed
  have hingests : ∀ overlay database,
      ((final overlay).builder.finish {}).1.toOption = some database →
        Ingests overlay Layout.lite.reader false lines database := by
    intro overlay database hfinish
    have hstart : (Builder.start {} .ip2location .memory (listenerOf true) ()).1 =
        .ok (run overlay).builder := rfl
    have hcollects : (run overlay).Collects [] := ⟨Builder.hasStored_of_start hstart, rfl⟩
    have hkeep : ({} : Settings).keepSource = false := rfl
    have hfinal : final overlay = (run overlay).ingestLines Layout.lite.reader false lines ∨
        (run overlay).MayIngest Layout.lite.reader {} ⟨"lines"⟩ lines (final overlay) :=
      Or.inr (mayIngest_ingest _ _ _ _ _)
    refine .of_finish hstart rfl rfl hkeep hfinal (result_eq_ok_iff.2 ?_) (eq_ok_of_toOption hfinish)
    rw [(same_of_final hkeep hfinal).1]
    exact (hcollects.ingestLines horder).2 ⟨lenient_listenerOf true, rfl⟩
  have hanswer : (((final none).builder.finish {}).1.toOption.bind fun database =>
      database.answer a).isSome = true := by
    decide +kernel
  have hbuilt : ((final (some sweep)).builder.finish {}).1.toOption.isSome = true := by
    decide +kernel
  obtain ⟨l, hanswer⟩ := Option.isSome_iff_exists.1 hanswer
  obtain ⟨plain, hplain, hl⟩ := Option.bind_eq_some_iff.1 hanswer
  obtain ⟨laid, hlaid⟩ := Option.isSome_iff_exists.1 hbuilt
  obtain ⟨-, hyes, hanswers⟩ := answer_privateNetwork hvalid horder hfits (hingests _ _ hplain)
    (hingests _ _ hlaid)
  obtain ⟨l', hl', hsame, hflag, -⟩ := (hanswers [] [] a).2 l hl
  have hrow : ∃ m ∈ (Track.ofSources [table]).drain.1, m.span.contains a = true := by
    decide +kernel
  obtain ⟨m, hm, hcontains⟩ := hrow
  refine ⟨rows, lines, plain, laid, a, l, l', hingests _ _ hplain, hingests _ _ hlaid, hl, hl', ?_,
    hsame⟩
  rw [hflag m hm hcontains]
  exact hyes (List.forall_mem_singleton.2 ⟨_, _, _, rfl⟩) m hm

end Run

end IpAtlas
