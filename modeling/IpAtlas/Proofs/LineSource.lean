import IpAtlas.Catalog
import IpAtlas.Proofs.Builder.Traces
import IpAtlas.Proofs.Ingest.Invariant

/-!
# Builds that fail

The build of a source can fail before its first line, at any of its lines, behind the last of them,
and when its index is to take its place.  By then any number of records may have been written.  All
these ways end in one of three calls: the builder is dropped, it was interrupted, or it cannot be
finished.  Each of them takes back what was written, so a build that fails is one that nobody can
tell from the disk.

## What is here

* `Run.Tidy` — a run that can be given up without a trace, and what keeps it so.
* `Run.Fails`, `Run.Fails.failure_ingest` — the ways for a run to fail.
* `LineSource.Fails`, `LineSource.build_cases` — the ways for a build to fail, and what it comes to.
* `LineSource.unchanged_of_build` — what a build leaves that failed.
* `Catalog.content_of_failed` — the same among other registrations.
-/

set_option autoImplicit false

namespace IpAtlas

open Index Disk

namespace Run

variable {σ α : Type} {before : Disk} {storage : Storage} {run run' : Run σ α}

/-! ## Runs without a trace -/

/-- A run whose builder was not finished, and has done to the disk what it may. -/
structure Tidy (before : Disk) (storage : Storage) (run : Run σ α) : Prop where
  keeps : run.builder.Keeps before run.disk
  unfinished : run.builder.phase.ending? ≠ some .finished
  storage_eq : run.builder.storage = storage

/-- What makes a run tidy is kept by every call. -/
theorem invariant_tidy (before : Disk) (storage : Storage) :
    Invariant fun (b : Builder σ) disk _ =>
      b.Keeps before disk ∧ b.phase.ending? ≠ some .finished ∧ b.storage = storage where
  take := by
    rintro b disk failure ⟨hkeeps, hunfinished, hstorage⟩ result
    obtain ⟨hkeeps, hphase, hsame⟩ := hkeeps.take result
    exact ⟨hkeeps, hphase ▸ hunfinished, hsame.trans hstorage⟩
  interrupt := by
    rintro b disk failure ⟨hkeeps, hunfinished, hstorage⟩
    obtain ⟨hunchanged, hphase, hsame⟩ := hkeeps.interrupt hunfinished
    refine ⟨Builder.keeps_of_interrupted hphase hunchanged, ?_, hsame.trans hstorage⟩
    rw [hphase]
    exact nofun
  fault h _ := h

/-- **A source that is ingested leaves a run that can be given up**, wherever it stopped. -/
theorem Tidy.ingest (h : run.Tidy before storage) (reader : LineReader) (settings : Settings)
    (label : Path) (source : Stream) :
    (run.ingest reader settings label source).Tidy before storage := by
  have hhas : run.Has fun b disk _ =>
      b.Keeps before disk ∧ b.phase.ending? ≠ some .finished ∧ b.storage = storage :=
    ⟨h.keeps, h.unfinished, h.storage_eq⟩
  obtain ⟨hkeeps, hunfinished, hstorage⟩ :=
    (invariant_tidy before storage).ingest hhas reader settings label source
  exact ⟨hkeeps, hunfinished, hstorage⟩

/-! ## Runs that fail -/

/-- The ways for a run over the results of some lines to fail. -/
inductive Fails (run : Run σ α) (results : List LineResult) (fault : Option IoError) : Prop where
  /-- An interruption was asked for when some of the lines were through, or none. -/
  | interrupted {front back : List LineResult} (hsplit : results = front ++ back)
      (h : (run.feed front).interrupted = true)
  /-- A record is out of order, at any line, and the listener ends the build. -/
  | outOfOrder {front back : List LineResult} {record : Record} {last : Address} {e : Error}
      (hsplit : results = front ++ .ok record :: back)
      (hlast : (run.feed front).builder.obstacle? record = some last)
      (h : ((run.feed front).builder.refuse last record).result = .error e)
  /-- A line is no record, and the listener ends the build. -/
  | parseFailed {front back : List LineResult} {cause : ParseError} {e : Error}
      (hsplit : results = front ++ .error cause :: back)
      (h : ((run.feed front).builder.reportParseError cause).result = .error e)
  /-- The source cannot be read to its end. -/
  | fault {e : IoError} (h : fault = some e)

theorem exists_error_of_refused {b : Builder σ} {record : Record} {last : Address} {e : Error}
    (hlast : b.obstacle? record = some last) (h : (b.refuse last record).result = .error e) :
    ∃ e', (b.insert record).result = .error e' := by
  rw [Builder.insert, hlast]
  split
  · exact ⟨e, h⟩
  · exact ⟨_, rfl⟩

theorem failure_absorb {reply : Builder.Reply σ} {e : Error} (h : reply.result = .error e) :
    (run.absorb reply).failure = some e := by
  rw [absorb, h]
  rfl

/-- A record is refused whole or in its first piece, which begins where it does. -/
theorem failure_insert {record : Record} {last : Address} {e : Error}
    (hlast : run.builder.obstacle? record = some last)
    (h : (run.builder.refuse last record).result = .error e) :
    (run.insert record).failure.isSome := by
  rw [Run.insert]
  split
  · obtain ⟨e', he⟩ := exists_error_of_refused hlast h
    rw [failure_absorb he]
    rfl
  · rename_i s _
    have htiles := s.tiles_cutsFrom record record.range
    cases hcuts : s.cuts record with
    | nil => exact absurd hcuts (s.cuts_ne_nil record)
    | cons cut cuts =>
      have hfirst : cut.piece.range.first = record.range.first := by
        have hends := htiles.ends.1
        rw [← Sweep.cuts, hcuts] at hends
        exact Option.some_inj.1 hends
      have hline : cut.piece.line = record.line :=
        Sweep.line_of_mem_cutsFrom (s := s) (hcuts ▸ List.mem_cons_self)
      have hlast' : run.builder.obstacle? cut.piece = some last := by
        rw [← hlast, Builder.obstacle?, hfirst]
        rfl
      have hrefused : (run.builder.refuse last cut.piece).result = .error e := by
        rw [← h, Builder.refuse, Builder.refuse, hfirst, hline]
      obtain ⟨e', he⟩ := exists_error_of_refused hlast' hrefused
      have hstop : (run.store cut.remarks cut.piece).1.failure = some e' := failure_absorb he
      simp only [Sweep.feed, hcuts, handOver_cons, hstop]
      rfl

/-- What has failed, or is to be interrupted, when some lines are through, has failed at the end. -/
theorem failure_of_over {results front back : List LineResult} {fault : Option IoError}
    (hsplit : results = front ++ back)
    (h : (run.feed front).failure.isSome ∨ (run.feed front).interrupted = true) :
    ((run.feed results).close fault).failure.isSome := by
  have hfeed : run.feed results = (run.feed front).feed back := by rw [hsplit, feed_append]
  rw [hfeed, close_feed_of_over h]
  have hheed : (run.feed front).heed.failure.isSome := by
    rcases h with hfailure | hinterrupted
    · rwa [heed_of_failure hfailure]
    · exact failure_heed_of_interrupted hinterrupted
  obtain ⟨e, he⟩ := Option.isSome_iff_exists.1 hheed
  rw [close, he]
  rfl

/-- A line at which an open run fails. -/
theorem failure_of_step {results front back : List LineResult} {result : LineResult}
    {fault : Option IoError} (hsplit : results = front ++ result :: back)
    (h : (run.feed front).failure = none → (run.feed front).interrupted = false →
      ((run.feed front).step result).failure.isSome) :
    ((run.feed results).close fault).failure.isSome := by
  by_cases hfailure : (run.feed front).failure.isSome
  · exact failure_of_over hsplit (Or.inl hfailure)
  by_cases hinterrupted : (run.feed front).interrupted = true
  · exact failure_of_over hsplit (Or.inr hinterrupted)
  have hstep := h (Option.not_isSome_iff_eq_none.1 hfailure) (by simpa using hinterrupted)
  have hfeed : run.feed (front ++ [result]) = (run.feed front).step result := by
    rw [feed_append]
    rfl
  have hsplit' : results = (front ++ [result]) ++ back := by
    rw [hsplit, List.append_assoc, List.singleton_append]
  exact failure_of_over hsplit' (Or.inl (hfeed ▸ hstep))

theorem step_eq (hfailure : run.failure = none) (hinterrupted : run.interrupted = false)
    (result : LineResult) :
    run.step result = match result with
      | .ok record => run.insert record
      | .error e => run.absorb (run.builder.reportParseError e) := by
  rw [Run.step.eq_def, heed_of_not_interrupted hinterrupted]
  simp only [hfailure]
  rfl

/-- **A run fails in each of these ways.** -/
theorem Fails.isSome_failure {results : List LineResult} {fault : Option IoError}
    (h : run.Fails results fault) : ((run.feed results).close fault).failure.isSome := by
  cases h with
  | interrupted hsplit h => exact failure_of_over hsplit (Or.inr h)
  | outOfOrder hsplit hlast h =>
    refine failure_of_step hsplit fun hfailure hinterrupted => ?_
    rw [step_eq hfailure hinterrupted]
    exact failure_insert hlast h
  | parseFailed hsplit h =>
    refine failure_of_step hsplit fun hfailure hinterrupted => ?_
    rw [step_eq hfailure hinterrupted, failure_absorb h]
    rfl
  | fault h =>
    rw [close, h]
    cases (run.feed results).heed.failure <;> rfl

/-- And so it does in batches. -/
theorem Fails.failure_ingest {reader : LineReader} {source : Stream} (settings : Settings)
    (label : Path) (h : run.Fails (source.lines.map (reader settings.keepSource)) source.fault) :
    (run.ingest reader settings label source).failure.isSome := by
  rw [(mayIngest_ingest run reader settings label source).alike.failure]
  exact h.isSome_failure

end Run

/-! ## Builds -/

namespace LineSource

variable {σ : Type} {source : LineSource σ} {provider : Provider} {interrupted : Bool}
  {disk : Disk}

/-- The builder of a source, and the disk then. -/
def start (source : LineSource σ) (provider : Provider) (disk : Disk) :
    Except Error (Builder σ) × Disk :=
  Builder.start disk provider source.settings.storage source.listener source.state

/-- The ways for the build of a source to fail. -/
inductive Fails (source : LineSource σ) (provider : Provider) (interrupted : Bool) (disk : Disk) :
    Prop where
  /-- There is no place for an index file. -/
  | placeless {opened : Disk} {e : Error} (hstart : source.start provider disk = (.error e, opened))
  /-- The source is missing, or cannot be opened. -/
  | missing {b : Builder σ} {opened : Disk} {e : IoError}
      (hstart : source.start provider disk = (.ok b, opened))
      (h : openSource opened source.path = .error e)
  /-- A table of private networks is missing. -/
  | tableMissing {b : Builder σ} {opened : Disk} {e : IoError}
      (hstart : source.start provider disk = (.ok b, opened))
      (h : source.overlay opened = .error e)
  /-- The run over its lines fails. -/
  | running {b : Builder σ} {opened : Disk} {stream : Stream} {overlay : Option (Sweep Flag)}
      (hstart : source.start provider disk = (.ok b, opened))
      (hopen : source.open? opened = .ok (stream, overlay))
      (h : Run.Fails { builder := b, overlay, disk := opened, interrupted }
        (stream.lines.map (source.reader source.settings.keepSource)) stream.fault)
  /-- The index cannot be moved to its path. -/
  | unreplaceable {path : Path} {capacity : Nat}
    (hfile : source.settings.storage = .file path capacity)
      (h : ¬ disk.Receives path)

/-- Whether a source can be opened does not depend on how much is asked for at a time. -/
theorem openSource_eq_error_iff {path : Path} {asked : Nat} {e : IoError} :
    openSource disk path asked = .error e ↔ openSource disk path = .error e := by
  rw [openSource, openSource]
  split
  · rfl
  · cases disk.read path <;> simp [Except.map]

theorem exists_error_of_isOk {β : Type} {x : Except Error β} (h : x.isOk = false) :
    ∃ e, x = .error e := by
  cases x with
  | ok y => exact nomatch h
  | error e => exact ⟨e, rfl⟩

/-- What the end of a run comes to: what has failed is given up, and what is finished leaves its
index or nothing. -/
theorem conclude_cases {run : Run σ Flag} {storage : Storage} (h : run.Tidy disk storage) :
    ((∃ e, (conclude run).result = .error e) ∧ disk.Unchanged (conclude run).disk) ∨
    run.failure = none ∧ ∃ entries, storage.Left disk (conclude run).disk entries ∧
      ((conclude run).result.isOk = true ∨ ¬ Index.Fits entries) := by
  rw [conclude]
  cases hfailure : run.failure with
  | some e => exact Or.inl ⟨⟨e, rfl⟩, h.keeps.drop h.unfinished⟩
  | none =>
    cases hphase : run.builder.phase with
    | finished => exact absurd (congrArg Builder.Phase.ending? hphase) h.unfinished
    | interrupted =>
      have hfinish : run.builder.finish run.disk =
          (.error run.builder.closedError, run.builder, run.disk, []) := by
        rw [Builder.finish, hphase]
      simp only [hfinish]
      exact Or.inl ⟨⟨_, rfl⟩, h.keeps.of_interrupted hphase⟩
    | collecting draft =>
      rcases h.keeps.finish hphase with ⟨hleft, hresult⟩ | ⟨hsame, hresult⟩
      · exact Or.inr ⟨rfl, _, h.storage_eq ▸ hleft, hresult⟩
      · exact Or.inl ⟨exists_error_of_isOk hresult, hsame⟩

/-- A source whose run did not fail, and whose index can be moved to its path, took no way to
fail. -/
theorem not_fails_of_ingest {b : Builder σ} {opened : Disk} {stream : Stream}
    {overlay : Option (Sweep Flag)} (hstart : source.start provider disk = (.ok b, opened))
    (hopen : source.open? opened = .ok (stream, overlay))
    (hnone : (Run.ingest { builder := b, overlay, disk := opened, interrupted } source.reader
      source.settings source.path stream).failure = none)
    (hreceives : ∀ path capacity, source.settings.storage = .file path capacity →
      disk.Receives path) : ¬ source.Fails provider interrupted disk := by
  obtain ⟨stream', hsource, hrest⟩ := exists_of_bind_eq_ok hopen
  obtain ⟨overlay', hoverlay, hpair⟩ := exists_of_bind_eq_ok hrest
  intro h
  cases h with
  | placeless hstart' => exact nomatch hstart.symm.trans hstart'
  | missing hstart' h =>
    obtain ⟨-, rfl⟩ := Prod.mk.inj (hstart.symm.trans hstart')
    exact nomatch hsource.symm.trans (openSource_eq_error_iff.2 h)
  | tableMissing hstart' h =>
    obtain ⟨-, rfl⟩ := Prod.mk.inj (hstart.symm.trans hstart')
    exact nomatch hoverlay.symm.trans h
  | running hstart' hopen' h =>
    obtain ⟨hb, rfl⟩ := Prod.mk.inj (hstart.symm.trans hstart')
    obtain rfl := Except.ok.inj hb
    obtain ⟨rfl, rfl⟩ := Prod.mk.inj (Except.ok.inj (hopen.symm.trans hopen'))
    have hsome := h.failure_ingest source.settings source.path
    rw [hnone] at hsome
    exact nomatch hsome
  | unreplaceable hfile h => exact h (hreceives _ _ hfile)

/-- What a build comes to that has a builder. -/
theorem build_of_start {b : Builder σ} {opened : Disk} (interrupted : Bool)
    (hstart : source.start provider disk = (.ok b, opened)) :
    ((∃ e, (source.build provider interrupted disk).result = .error e) ∧
      (source.settings.storage.cleared disk).Unchanged
        (source.build provider interrupted disk).disk) ∨
    ¬ source.Fails provider interrupted disk ∧ ∃ entries,
      source.settings.storage.Left (source.settings.storage.cleared disk)
        (source.build provider interrupted disk).disk entries ∧
      ((source.build provider interrupted disk).result.isOk = true ∨ ¬ Index.Fits entries) := by
  obtain ⟨-, hstorage, -, -, hphase, hkeeps⟩ := Builder.keeps_of_start hstart
  have hunfinished : b.phase.ending? ≠ some .finished := by
    rw [hphase]
    exact nofun
  rw [build, ← start, hstart]
  dsimp only
  cases hopen : source.open? opened with
  | error e => exact Or.inl ⟨⟨_, rfl⟩, hkeeps.drop hunfinished⟩
  | ok found =>
    obtain ⟨stream, overlay⟩ := found
    let run : Run σ Flag := { builder := b, overlay, disk := opened, interrupted }
    have htidy : run.Tidy (source.settings.storage.cleared disk) source.settings.storage :=
      ⟨hkeeps, hunfinished, hstorage⟩
    rcases conclude_cases (htidy.ingest source.reader source.settings source.path stream) with
      hfailed | ⟨hnone, entries, hleft, hresult⟩
    · exact Or.inl hfailed
    · have hreceives : ∀ path capacity, source.settings.storage = .file path capacity →
          disk.Receives path := fun path capacity hfile =>
        (source.settings.storage.agrees_cleared disk).receives_iff.1
          (hleft.receives path capacity hfile)
      exact Or.inr ⟨not_fails_of_ingest hstart hopen hnone hreceives, entries, hleft, hresult⟩

/-- **What a build comes to**: it fails and leaves nothing, or none of the ways to fail was taken and
it leaves its index. -/
theorem build_cases (source : LineSource σ) (provider : Provider) (interrupted : Bool)
    (disk : Disk) :
    ((∃ e, (source.build provider interrupted disk).result = .error e) ∧
      source.settings.storage.Untouched disk (source.build provider interrupted disk).disk) ∨
    ¬ source.Fails provider interrupted disk ∧ ∃ entries,
      source.settings.storage.Left (source.settings.storage.cleared disk)
        (source.build provider interrupted disk).disk entries ∧
      ((source.build provider interrupted disk).result.isOk = true ∨ ¬ Index.Fits entries) := by
  cases hstart : source.start provider disk with
  | mk result opened =>
    cases result with
    | error e =>
      rw [build, ← start, hstart]
      exact Or.inl ⟨⟨e, rfl⟩, Or.inl (Builder.unchanged_of_start hstart)⟩
    | ok b => exact (build_of_start interrupted hstart).imp_left (And.imp_right Or.inr)

/-- What a build leaves in any case: its index at most.  A file that was left at a name of its files
may be gone. -/
theorem agrees_build (source : LineSource σ) (provider : Provider)
    (interrupted : Bool) (disk : Disk) :
    disk.Agrees
      (fun names => source.settings.storage.Leads disk names ∨ Temporary disk.handedOut names)
      (source.build provider interrupted disk).disk := by
  have hcleared := (source.settings.storage.agrees_cleared disk).mono
    fun names => Or.inr (a := source.settings.storage.Leads disk names)
  rcases source.build_cases provider interrupted disk with
    ⟨-, hsame | hsame⟩ | ⟨-, entries, hleft, -⟩
  · exact hsame.agrees _
  · exact hcleared.trans (hsame.agrees _)
  · exact hcleared.trans (hleft.agrees.mono fun _ hleads => Or.inl (Storage.leads_cleared.1 hleads))

/-- Neither of the two files that it began with remains. -/
theorem files_gone {b : Builder σ} {opened : Disk} {w : Writer} {capacity : Nat}
    (interrupted : Bool) (hstart : source.start provider disk = (.ok b, opened))
    (hphase : b.phase = .collecting (.file w capacity)) :
    (source.build provider interrupted disk).disk.content w.building = none ∧
      (source.build provider interrupted disk).disk.content w.sidecar = none := by
  obtain ⟨-, hsame, -, -, -, hkeeps⟩ := Builder.keeps_of_start hstart
  obtain ⟨hstorage, building, sidecar, halone⟩ := hkeeps.of_collecting hphase
  rw [hsame] at hstorage
  refine halone.gone ?_
  rcases build_of_start interrupted hstart with ⟨-, hunchanged⟩ | ⟨-, entries, hleft, -⟩
  · exact hunchanged.agrees _
  · refine hleft.agrees.mono ?_
    rintro names ⟨path, capacity', hfile, hleads⟩
    obtain ⟨rfl, rfl⟩ := Storage.file.inj (hstorage.symm.trans hfile)
    exact hleads

/-- A build that gives an error has left everything as it was, or an index that is too large. -/
theorem untouched_of_error {path : Path} {capacity : Nat} {e : Error}
    (hfile : source.settings.storage = .file path capacity)
    (he : (source.build provider interrupted disk).result = .error e) :
    source.settings.storage.Untouched disk (source.build provider interrupted disk).disk ∨
      ∃ entries, ¬ Index.Fits entries ∧
        (source.build provider interrupted disk).disk.content path =
          some (.file (image entries)) := by
  rcases source.build_cases provider interrupted disk with
    ⟨-, hsame⟩ | ⟨-, entries, hleft, hresult⟩
  · exact Or.inl hsame
  · rw [he] at hresult
    exact Or.inr ⟨entries, hresult.resolve_left nofun, hleft.content_eq _ _ hfile⟩

/-- **A build that fails cannot be told from the disk.**  In each of the ways for it to fail it gives
an error, every file is what it was, and so is what the path of the index leads to.  And if it gives
an error at all, then so it is, unless the index has places that do not fit its slots.  Neither of
its two files remains in any case; and what was left at the name of the second by somebody else is
the one thing that may be gone. -/
theorem unchanged_of_build (source : LineSource σ) (provider : Provider) (interrupted : Bool)
    (disk : Disk) {path : Path} {capacity : Nat}
    (hfile : source.settings.storage = .file path capacity) :
    (source.Fails provider interrupted disk →
      (∃ e, (source.build provider interrupted disk).result = .error e) ∧
        source.settings.storage.Untouched disk (source.build provider interrupted disk).disk ∧
        (source.build provider interrupted disk).disk.content path = disk.content path) ∧
    (∀ e, (source.build provider interrupted disk).result = .error e →
      (source.settings.storage.Untouched disk (source.build provider interrupted disk).disk ∧
        (source.build provider interrupted disk).disk.content path = disk.content path) ∨
      ∃ entries, ¬ Index.Fits entries ∧
        (source.build provider interrupted disk).disk.content path =
          some (.file (image entries))) ∧
    (∀ b opened w capacity, source.start provider disk = (.ok b, opened) →
      b.phase = .collecting (.file w capacity) →
        (source.build provider interrupted disk).disk.content w.building = none ∧
          (source.build provider interrupted disk).disk.content w.sidecar = none) ∧
    (source.settings.storage.Untouched disk (source.build provider interrupted disk).disk →
      ¬ disk.HasFile (Session.fresh disk path).writer.sidecar →
        disk.Unchanged (source.build provider interrupted disk).disk) := by
  refine ⟨fun hfails => ?_, fun e he => ?_, fun b opened w capacity hstart hphase =>
    files_gone interrupted hstart hphase, fun huntouched hnone =>
    huntouched.unchanged hfile hnone⟩
  · rcases source.build_cases provider interrupted disk with ⟨herror, hsame⟩ | ⟨hnot, -⟩
    · exact ⟨herror, hsame, hsame.content_eq hfile⟩
    · exact absurd hfails hnot
  · exact (untouched_of_error hfile he).imp_left fun hsame => ⟨hsame, hsame.content_eq hfile⟩

/-- A second line that does not follow the first ends a build over an index that was there. -/
theorem unchanged_of_build_outOfOrder :
    ∃ (source : LineSource Unit) (disk : Disk),
      source.settings.storage = .file ⟨"ranges.idx"⟩ 0 ∧
        disk.content ⟨"ranges.idx"⟩ = some (.file [1, 2, 3]) ∧
        source.Fails .ip2location false disk ∧
        (∃ e, (source.build .ip2location false disk).result = .error e) ∧
        disk.Unchanged (source.build .ip2location false disk).disk := by
  let four : Address := ⟨.v4, 4, by decide⟩
  let recordAt (line : Line) : Record := ⟨.single four, { span := ⟨four, four⟩ }, line⟩
  let source : LineSource Unit :=
    { path := ⟨"in.csv"⟩
      reader := fun _ line => .ok (recordAt line)
      settings := { storage := .file ⟨"ranges.idx"⟩ 0 }
      listener := .failFast
      state := () }
  let disk : Disk :=
    { entries := [(["in.csv"], .file [52, 10, 52, 10]), (["ranges.idx"], .file [1, 2, 3])] }
  let started := source.start .ip2location disk
  let first : Line := ⟨1, "4"⟩
  let second : Line := ⟨2, "4"⟩
  have hlines : (source.open? started.2).toOption.map (fun found => found.1.lines) =
      some [first, second] := by
    decide +kernel
  obtain ⟨⟨stream, overlay⟩, hopen, hlines⟩ := Option.map_eq_some_iff.1 hlines
  have hrefused : (started.1.toOption.any fun b =>
      let run : Run Unit Flag := Run.feed { builder := b, disk := started.2 } [.ok (recordAt first)]
      run.builder.obstacle? (recordAt second) = some four ∧
        (run.builder.refuse four (recordAt second)).result.isOk = false) = true := by
    decide +kernel
  obtain ⟨b, hstart, hrefused⟩ := (Option.any_eq_true _ _).1 hrefused
  obtain ⟨hlast, hrefused⟩ := of_decide_eq_true hrefused
  obtain ⟨e, he⟩ := exists_error_of_isOk hrefused
  have hstarted : started = (.ok b, started.2) := Prod.ext (eq_ok_of_toOption hstart) rfl
  have hopened := eq_ok_of_toOption hopen
  have hoverlay : overlay = none := by
    obtain ⟨stream', -, hrest⟩ := exists_of_bind_eq_ok hopened
    exact (Prod.mk.inj (Except.ok.inj hrest)).2.symm
  have hresults : stream.lines.map (source.reader source.settings.keepSource) =
      [.ok (recordAt first)] ++ .ok (recordAt second) :: [] := by
    rw [hlines]
    rfl
  have hfails : source.Fails .ip2location false disk := by
    subst hoverlay
    exact .running hstarted hopened (.outOfOrder hresults hlast he)
  have hnone : ¬ disk.HasFile (Session.fresh disk ⟨"ranges.idx"⟩).writer.sidecar := by
    rintro ⟨contents, fault, hcontent⟩
    have habsent : disk.content (Session.fresh disk ⟨"ranges.idx"⟩).writer.sidecar = none := by
      decide +kernel
    exact nomatch habsent.symm.trans hcontent
  obtain ⟨hfailed, -, -, hunchanged⟩ := source.unchanged_of_build .ip2location false disk rfl
  obtain ⟨herror, hsame, -⟩ := hfailed hfails
  exact ⟨source, disk, rfl, by decide +kernel, hfails, herror, hunchanged hsame hnone⟩

end LineSource

/-! ## Among others -/

namespace Catalog

variable {σ : Type} {interrupted : Bool} {disk : Disk} {earlier later : List (Registration σ)}

/-- The names of the index files that some registrations write. -/
def Leads (registrations : List (Registration σ)) (disk : Disk) (names : List String) : Prop :=
  ∃ r ∈ registrations, ∃ path ∈ r.indexPath?, disk.Leads path names

/-- These names, and those of files that are being written. -/
def Touches (registrations : List (Registration σ)) (disk : Disk) (names : List String) : Prop :=
  Leads registrations disk names ∨ ∃ number, Temporary number names

theorem agrees_build (r : Registration σ) (interrupted : Bool) (disk : Disk) :
    disk.Agrees (Touches [r] disk) (r.build interrupted disk).disk := by
  obtain ⟨provider, source⟩ := r
  cases source with
  | database database => exact agrees_refl _ _
  | lines source =>
    refine (source.agrees_build provider interrupted disk).mono ?_
    rintro names (⟨path, capacity, hfile, hleads⟩ | htemporary)
    · refine Or.inl ⟨_, List.mem_singleton_self _, path, ?_, hleads⟩
      simp only [Registration.indexPath?, hfile]
      rfl
    · exact Or.inr ⟨_, htemporary⟩

/-- **Building some registrations changes their indexes at most**, among the files that are not being
written. -/
theorem agrees_buildAll (registrations : List (Registration σ)) (interrupted : Bool) (disk : Disk) :
    disk.Agrees (Touches registrations disk) (buildAll interrupted disk registrations).2.1 := by
  induction registrations generalizing interrupted disk with
  | nil => exact agrees_refl _ _
  | cons r registrations ih =>
    have hfirst := agrees_build r interrupted disk
    refine (hfirst.mono ?_).trans ((ih _ _).mono ?_)
    · refine fun names => Or.imp_left ?_
      rintro ⟨r', hr', hleads⟩
      obtain rfl := List.mem_singleton.1 hr'
      exact ⟨r', List.mem_cons_self, hleads⟩
    · refine fun names => Or.imp_left ?_
      rintro ⟨r', hr', path, hpath, hleads⟩
      exact ⟨r', List.mem_cons_of_mem _ hr', path, hpath, hfirst.follow_iff.1 hleads⟩

/-- An index that none of some registrations writes is the one that was there. -/
theorem content_buildAll {registrations : List (Registration σ)} {path : Path}
    (hplain : ¬ path.IsTemporary)
    (h : ∀ r ∈ registrations, ∀ q ∈ r.indexPath?, disk.place? q ≠ disk.place? path) :
    (buildAll interrupted disk registrations).2.1.content path = disk.content path := by
  refine (agrees_buildAll registrations interrupted disk).content_eq fun names hleads => ?_
  rintro (⟨r, hr, q, hq, hleads'⟩ | ⟨number, htemporary⟩)
  · exact h r hr q hq ((place?_eq_some_iff.2 hleads').trans (place?_eq_some_iff.2 hleads).symm)
  · exact Path.not_temporary_of_follow hplain hleads number htemporary

/-- What comes of registrations is what comes of the first of them, and then of the others. -/
theorem buildAll_append (earlier later : List (Registration σ)) (interrupted : Bool) (disk : Disk) :
    ∃ interrupted', buildAll interrupted disk (earlier ++ later) =
      ((buildAll interrupted disk earlier).1 ++
          (buildAll interrupted' (buildAll interrupted disk earlier).2.1 later).1,
        (buildAll interrupted' (buildAll interrupted disk earlier).2.1 later).2.1,
        (buildAll interrupted disk earlier).2.2 ++
          (buildAll interrupted' (buildAll interrupted disk earlier).2.1 later).2.2) := by
  induction earlier generalizing interrupted disk with
  | nil => exact ⟨interrupted, rfl⟩
  | cons r earlier ih =>
    obtain ⟨interrupted', h⟩ :=
      ih (r.build interrupted disk).interrupted (r.build interrupted disk).disk
    refine ⟨interrupted', ?_⟩
    simp only [List.cons_append, buildAll, h, List.append_assoc]

theorem length_buildAll (registrations : List (Registration σ)) (interrupted : Bool) (disk : Disk) :
    (buildAll interrupted disk registrations).1.length = registrations.length := by
  induction registrations generalizing interrupted disk with
  | nil => rfl
  | cons r registrations ih => exact congrArg Nat.succ (ih _ _)

/-- Collecting gives all values, or the error that no other stands before. -/
theorem collect_cases {β : Type} (results : List (Except Error β)) :
    (∃ values : List β, results = values.map .ok ∧ collect results = .ok values) ∨
    ∃ (place : Nat) (e : Error), results[place]? = some (.error e) ∧
      (∀ i < place, ∃ x, results[i]? = some (.ok x)) ∧ collect results = .error e := by
  induction results with
  | nil => exact Or.inl ⟨[], rfl, rfl⟩
  | cons result results ih =>
    cases result with
    | error e => exact Or.inr ⟨0, e, rfl, fun i hi => absurd hi (Nat.not_lt_zero i), rfl⟩
    | ok x =>
      rcases ih with ⟨values, hresults, hcollect⟩ | ⟨place, e, hplace, hbefore, hcollect⟩
      · exact Or.inl ⟨x :: values, by rw [hresults]; rfl, by rw [collect, hcollect]; rfl⟩
      · refine Or.inr ⟨place + 1, e, hplace, fun i hi => ?_, by rw [collect, hcollect]; rfl⟩
        cases i with
        | zero => exact ⟨x, rfl⟩
        | succ i => exact hbefore i (Nat.lt_of_succ_lt_succ hi)

theorem exists_error_of_mem {β : Type} {results : List (Except Error β)} {e : Error}
    (h : .error e ∈ results) : ∃ e', collect results = .error e' := by
  rcases collect_cases results with ⟨values, rfl, -⟩ | ⟨_, e', -, -, hcollect⟩
  · obtain ⟨x, -, hx⟩ := List.mem_map.1 h
    cases hx
  · exact ⟨e', hcollect⟩

/-- The catalogue of registrations of which one comes to an error. -/
theorem exists_error_of_build {registrations : List (Registration σ)} {e : Error}
    (h : .error e ∈ (buildAll interrupted disk registrations).1) :
    ∃ e', (build registrations interrupted disk).result = .error e' := by
  rw [build]
  split
  · exact ⟨_, rfl⟩
  split
  · exact ⟨_, rfl⟩
  · obtain ⟨e', he⟩ := exists_error_of_mem h
    exact ⟨e', by simp only [he]; rfl⟩

/-- **A catalogue with a source that fails is not built, and the index of the source stays**, if no
other registration writes it. -/
theorem content_of_failed {source : LineSource σ} {provider : Provider} {path : Path}
    {capacity : Nat} {e : Error} (hplain : ¬ path.IsTemporary)
    (hfile : source.settings.storage = .file path capacity)
    (halone : ∀ r ∈ earlier ++ later, ∀ q ∈ r.indexPath?, disk.place? q ≠ disk.place? path)
    (hfailed : (buildAll interrupted disk
      (earlier ++ ⟨provider, .lines source⟩ :: later)).1[earlier.length]? = some (.error e)) :
    (∃ e', (build (earlier ++ ⟨provider, .lines source⟩ :: later) interrupted disk).result =
        .error e') ∧
      ((buildAll interrupted disk (earlier ++ ⟨provider, .lines source⟩ :: later)).2.1.content path =
          disk.content path ∨
        ∃ entries, ¬ Index.Fits entries ∧
          (buildAll interrupted disk (earlier ++ ⟨provider, .lines source⟩ :: later)).2.1.content
            path = some (.file (image entries))) := by
  refine ⟨exists_error_of_build (List.mem_of_getElem? hfailed), ?_⟩
  obtain ⟨turn, happend⟩ :=
    buildAll_append earlier (⟨provider, .lines source⟩ :: later) interrupted disk
  have hbefore := agrees_buildAll earlier interrupted disk
  have hsame : (buildAll interrupted disk earlier).2.1.content path = disk.content path :=
    content_buildAll hplain fun r hr => halone r (List.mem_append_left _ hr)
  have hlength := length_buildAll earlier interrupted disk
  rw [happend] at hfailed ⊢
  generalize (buildAll interrupted disk earlier).2.1 = opened at hbefore hsame hfailed ⊢
  rw [List.getElem?_append_right (Nat.le_of_eq hlength), hlength, Nat.sub_self] at hfailed
  have hresult : (source.build provider turn opened).result.map
      (fun database => (provider, database)) =
      .error e := Option.some_inj.1 hfailed
  obtain ⟨e', he⟩ : ∃ e', (source.build provider turn opened).result = .error e' := by
    cases hbuild : (source.build provider turn opened).result with
    | ok database =>
      rw [hbuild] at hresult
      exact nomatch hresult
    | error e' => exact ⟨e', rfl⟩
  have hafter := source.agrees_build provider turn opened
  have hrest : (buildAll (source.build provider turn opened).interrupted
      (source.build provider turn opened).disk later).2.1.content path =
        (source.build provider turn opened).disk.content path := by
    refine content_buildAll hplain fun r hr q hq => ?_
    rw [hafter.place?_eq, hafter.place?_eq, hbefore.place?_eq, hbefore.place?_eq]
    exact halone r (List.mem_append_right _ hr) q hq
  show (buildAll (source.build provider turn opened).interrupted
      (source.build provider turn opened).disk later).2.1.content path = _ ∨ _
  rcases LineSource.untouched_of_error hfile he with hkept | ⟨entries, hlarge, hleft⟩
  · exact Or.inl (hrest.trans ((hkept.content_eq hfile).trans hsame))
  · exact Or.inr ⟨entries, hlarge, hrest.trans hleft⟩

end Catalog

end IpAtlas
