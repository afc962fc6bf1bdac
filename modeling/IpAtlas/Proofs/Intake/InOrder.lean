import IpAtlas.Proofs.Intake.Run

/-!
# Sources whose records are in order

If every record of a source starts after the end of the one before it, no listener is ever asked
about their order.  Whoever listens, every piece of every record is stored, unless the run fails;
and it fails only if its listener wants that, if it is interrupted, or if the source fails.

## What is here

* `Run.Collects` — a run that has stored some records and has not failed.
* `Run.Undisturbed` — a run that nobody interrupts, with a listener that lets lines pass that are no
  records.
* `Run.Collects.insert`, `Run.Collects.feed` — one record in order, and any number of them.
* `Run.Collects.ingestLines` — whole sources.
-/

set_option autoImplicit false

namespace IpAtlas

/-- A listener that never wants an interruption while records are in order, and lets every line pass
that is no record. -/
structure Listener.Lenient {σ : Type} (listener : Listener σ) : Prop where
  added : ∀ state provider record, (listener.added state provider record).stop = false
  parseFailed : ∀ state provider e, (listener.parseFailed state provider e).1 = .ok () ∧
    (listener.parseFailed state provider e).2.stop = false

namespace Run

variable {σ α : Type}

theorem lenient_listenerOf (failFast : Bool) : (listenerOf failFast : Listener σ).Lenient := by
  cases failFast <;> exact ⟨fun _ _ _ => rfl, fun _ _ _ => ⟨rfl, rfl⟩⟩

/-- A run that has stored some records and has not failed.  Nothing is said of its listener. -/
structure Collects (stored : List Record) (run : Run σ α) : Prop where
  hasStored : run.builder.HasStored stored
  failure : run.failure = none

/-- A run that nobody interrupts, whose listener is lenient. -/
structure Undisturbed (run : Run σ α) : Prop where
  lenient : run.builder.listener.Lenient
  interrupted : run.interrupted = false

section

variable {stored pieces : List Record} {run : Run σ α} {piece record : Record}

theorem Collects.absorb_of_follows (h : run.Collects stored)
    (hfollows : Record.Follows stored piece) (remarks : Journal) :
    (run.store remarks piece).1.Collects (stored ++ [piece]) ∧
      (run.Undisturbed → (run.store remarks piece).1.Undisturbed) ∧
      (run.store remarks piece).1.overlay = run.overlay := by
  obtain ⟨draft, hinsert, hstored⟩ := h.hasStored.insert_of_follows hfollows
  have hstore : (run.store remarks piece).1 =
      ({ run with remarks := run.remarks ++ remarks } : Run σ α).absorb
        (run.builder.accept draft piece) := by
    rw [← hinsert]
    rfl
  rw [hinsert] at hstored
  rw [hstore]
  refine ⟨⟨hstored, rfl⟩, fun hquiet => ⟨hquiet.lenient, ?_⟩, rfl⟩
  have hstop := hquiet.lenient.added run.builder.state run.builder.provider piece
  simp [absorb, Builder.accept, hquiet.interrupted, hstop]

/-- Pieces that follow are stored one after the other. -/
theorem Collects.handOver (h : run.Collects stored) (s : Sweep α) {cuts : List (Sweep.Cut α)}
    (hasc : Span.Ascending (cuts.map (·.piece.range.toSpan)))
    (hfollows : ∀ cut ∈ cuts, Record.Follows stored cut.piece) :
    (Sweep.handOver Run.store run s cuts).1.Collects (stored ++ cuts.map (·.piece)) ∧
      (run.Undisturbed → (Sweep.handOver Run.store run s cuts).1.Undisturbed) ∧
      (Sweep.handOver Run.store run s cuts).2.2 = s.afterCuts cuts := by
  induction cuts generalizing run stored s with
  | nil => exact ⟨by simpa [Sweep.handOver] using h, fun hquiet => hquiet, rfl⟩
  | cons cut cuts ih =>
    obtain ⟨-, hbehind, hasc⟩ := Span.ascending_cons.1 hasc
    obtain ⟨hnext, hquiet, -⟩ := h.absorb_of_follows (hfollows cut (by simp)) cut.remarks
    obtain ⟨hdone, hstill, hsweep⟩ := ih hnext cut.sweep hasc fun c hc =>
      Record.follows_concat.2 (hbehind _ (List.mem_map_of_mem hc))
    rw [handOver_cons, hnext.failure, Sweep.afterCuts_cons, List.map_cons]
    rw [List.append_assoc, List.singleton_append] at hdone
    exact ⟨hdone, fun h => hstill (hquiet h), hsweep⟩

/-- **A record that follows is stored in all its pieces**, whoever listens. -/
theorem Collects.insert (h : run.Collects stored) (hfollows : Record.Follows stored record)
    {rest : List (Record × List Record)} {records : List Record}
    (hcut : cuttings run.overlay (record :: records) = (record, pieces) :: rest) :
    (run.insert record).Collects (stored ++ pieces) ∧
      (run.Undisturbed → (run.insert record).Undisturbed) ∧
      cuttings (run.insert record).overlay records = rest := by
  rw [Run.insert]
  cases hoverlay : run.overlay with
  | none =>
    rw [hoverlay, cuttings] at hcut
    obtain ⟨hpair, rfl⟩ := List.cons.inj hcut
    obtain ⟨-, rfl⟩ := Prod.mk.inj hpair
    obtain ⟨hnext, hquiet, hsame⟩ := h.absorb_of_follows hfollows []
    have hstore : (run.store [] record).1 = run.absorb (run.builder.insert record) := by
      simp [store]
    rw [hstore] at hnext hquiet hsame
    exact ⟨hnext, hquiet, by rw [hsame, hoverlay]⟩
  | some s =>
    rw [hoverlay, cuttings] at hcut
    obtain ⟨hpair, rfl⟩ := List.cons.inj hcut
    obtain ⟨-, rfl⟩ := Prod.mk.inj hpair
    have htiles := s.tiles_cutsFrom record record.range
    obtain ⟨hnext, hquiet, hsweep⟩ := h.handOver s (s.ascending_cuts record) fun cut hmem =>
      hfollows.mono (htiles.within _ (List.mem_map_of_mem hmem)).1
    refine ⟨⟨hnext.hasStored, hnext.failure⟩, fun h => ⟨(hquiet h).lenient, (hquiet h).interrupted⟩,
      ?_⟩
    have hafter : (s.decorate record).2.1 = s.afterCuts (s.cuts record) := rfl
    rw [hafter, ← hsweep]
    rfl

/-- A line that is no record changes nothing that is stored; whether the run goes on is up to the
listener. -/
theorem Collects.reportParseError (h : run.Collects stored) (e : ParseError) :
    (run.absorb (run.builder.reportParseError e)).builder.HasStored stored ∧
      (run.absorb (run.builder.reportParseError e)).overlay = run.overlay ∧
      (run.Undisturbed → (run.absorb (run.builder.reportParseError e)).Undisturbed ∧
        (run.absorb (run.builder.reportParseError e)).failure = none) := by
  obtain ⟨draft, hphase, -⟩ := h.hasStored.collecting
  refine ⟨h.hasStored.reportParseError e, rfl, fun hquiet => ?_⟩
  obtain ⟨hpass, hstop⟩ := hquiet.lenient.parseFailed run.builder.state run.builder.provider e
  rw [Builder.reportParseError, hphase]
  refine ⟨⟨hquiet.lenient, ?_⟩, ?_⟩
  · simp [absorb, hquiet.interrupted, hstop]
  · simp [absorb, hpass, errorOf?]

theorem Collects.step_of_not_interrupted (h : run.Collects stored)
    (hint : run.interrupted = false) (result : LineResult) :
    run.step result = match result with
      | .ok record => run.insert record
      | .error e => run.absorb (run.builder.reportParseError e) := by
  cases result <;>
  · rw [Run.step, heed_of_not_interrupted hint, h.failure]
    rfl

/-- A run that has failed or is to be interrupted fails. -/
theorem failure_heed_feed (h : run.failure.isSome ∨ run.interrupted = true)
    (results : List LineResult) : (run.feed results).heed.failure.isSome := by
  have hclose := congrArg Run.failure (close_feed_of_over h results none)
  have hover : run.heed.failure.isSome := by
    rcases h with h | h
    · rwa [heed_of_failure h]
    · exact failure_heed_of_interrupted h
  simp only [close, Option.map_none, Option.or_none] at hclose
  rwa [hclose]

/-- **Records in order are stored in all their pieces, one after the other**, unless the run fails;
and undisturbed it does not. -/
theorem Collects.feed (h : run.Collects stored) (results : List LineResult)
    (horder : (Builder.recordsOf results).IsChain fun r r' => r.range.last < r'.range.first)
    (hfirst : ∀ record ∈ (Builder.recordsOf results).head?, Record.Follows stored record) :
    ((run.feed results).heed.failure = none → (run.feed results).Collects
        (stored ++ (cuttings run.overlay (Builder.recordsOf results)).flatMap Prod.snd)) ∧
      (run.Undisturbed → (run.feed results).heed.failure = none) := by
  induction results generalizing run stored with
  | nil =>
    refine ⟨fun _ => by simpa [Run.feed, Builder.recordsOf, cuttings] using h, fun hquiet => ?_⟩
    rw [show run.feed [] = run from rfl, heed_of_not_interrupted hquiet.interrupted, h.failure]
  | cons result results ih =>
    by_cases hint : run.interrupted = true
    · have hover := failure_heed_feed (Or.inr hint) (result :: results)
      refine ⟨fun hnone => ?_, fun hquiet => ?_⟩
      · rw [hnone] at hover
        exact absurd hover Bool.false_ne_true
      · rw [hquiet.interrupted] at hint
        exact absurd hint Bool.false_ne_true
    rw [Run.feed, List.foldl_cons, ← Run.feed,
      h.step_of_not_interrupted (Bool.eq_false_iff.2 hint) result]
    cases result with
    | error e =>
      obtain ⟨hstored, hoverlay, hquiet⟩ := h.reportParseError e
      dsimp only
      refine ⟨fun hnone => ?_, fun hq => ?_⟩
      · cases hfailure : (run.absorb (run.builder.reportParseError e)).failure with
        | none =>
          have hmore := (ih ⟨hstored, hfailure⟩ horder hfirst).1 hnone
          rwa [hoverlay] at hmore
        | some cause =>
          have hover := failure_heed_feed (Or.inl (by rw [hfailure]; rfl)) results
          rw [hnone] at hover
          exact absurd hover Bool.false_ne_true
      · obtain ⟨hq', hnone⟩ := hquiet hq
        exact (ih ⟨hstored, hnone⟩ horder hfirst).2 hq'
    | ok record =>
      have hrecords : Builder.recordsOf (.ok record :: results) =
          record :: Builder.recordsOf results := rfl
      rw [hrecords] at horder hfirst ⊢
      obtain ⟨pieces, rest, hcut⟩ :=
        exists_cuttings_cons run.overlay record (Builder.recordsOf results)
      obtain ⟨hnext, hquiet, hrest⟩ := h.insert (hfirst record rfl) hcut
      obtain ⟨hbehind, horder⟩ := List.isChain_cons.1 horder
      have htiles := tiles_cuttings run.overlay (record :: Builder.recordsOf results)
        (record, pieces) (by rw [hcut]; exact List.mem_cons_self)
      have hmore := ih hnext horder fun next hnext' last hlast => by
        have hend := Intake.getLast?_append_pieces stored htiles
        rw [hlast] at hend
        have hlt := hbehind next hnext'
        rwa [← Option.some_inj.1 hend] at hlt
      rw [hrest, List.append_assoc] at hmore
      rw [hcut, List.flatMap_cons]
      exact ⟨hmore.1, fun hq => hmore.2 (hquiet hq)⟩

/-- **Of a source whose records are in order everything is stored**, unless the run fails; and
undisturbed it fails only with the source. -/
theorem Collects.ingestLines (h : run.Collects []) {reader : LineReader} {keepSource : Bool}
    {source : Stream} (horder : (recordsOf reader keepSource source).IsChain
      fun r r' => r.range.last < r'.range.first) :
    ((run.ingestLines reader keepSource source).failure = none →
        (run.ingestLines reader keepSource source).builder.HasStored
          ((cuttings run.overlay (recordsOf reader keepSource source)).flatMap Prod.snd)) ∧
      (run.Undisturbed →
        (run.ingestLines reader keepSource source).failure = source.fault.map .io) := by
  obtain ⟨hstored, hquiet⟩ := h.feed (source.lines.map (reader keepSource)) horder
    fun record _ last hlast => nomatch hlast
  rw [Run.ingestLines_stream, close]
  refine ⟨fun hnone => ?_, fun hq => ?_⟩
  · obtain ⟨hheed, -⟩ := Option.or_eq_none_iff.1 hnone
    have hcollects := hstored hheed
    have hint : (run.feed (source.lines.map (reader keepSource))).interrupted = false := by
      by_contra hint
      have hover := failure_heed_of_interrupted (Bool.not_eq_false _ ▸ hint)
      rw [hheed] at hover
      exact absurd hover Bool.false_ne_true
    rw [heed_of_not_interrupted hint]
    exact hcollects.hasStored
  · dsimp only
    rw [hquiet hq, Option.none_or]

end

end Run

end IpAtlas
