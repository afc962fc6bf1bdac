import IpAtlas.Ingest
import IpAtlas.Proofs.Lines

/-!
# Both ways to drive a run

A run that takes its results in batches comes to the same as one that takes them line by line.
Three things make it so.  The batches of a source have its lines, however the source arrives.  The
consumer takes the batches in their order, whichever way they arrive.  And where some are missing,
because nobody waits for them any more, the run has failed or is to be interrupted, and then nothing
is taken of them line by line either.

Only the remarks of the two runs differ, so everything is said up to remarks.

All this is so for a source whose reads nobody interrupts.  An interruption ends a run in batches,
and one that goes line by line reads on.

## What is here

* `Notification`, `Listener.logged`, `Run.watched` — a run whose notifications are written down.
* `Run.Alike` — runs that differ in nothing but remarks.
* `Run.Over`, `Run.close_feed_of_over` — a run that is over takes nothing.
* `Consumer.Settled`, `Run.exists_consume_eq` — batches are taken in their order.
* `Run.MayIngest`, `Run.MayIngest.alike` — what a run in batches may come to.
-/

set_option autoImplicit false

namespace IpAtlas

/-! ## Writing notifications down -/

/-- What a listener is told, in full. -/
inductive Notification where
  | added (provider : Provider) (record : Record)
  | outOfOrder (provider : Provider) (line : Line) (cause : Error)
  | parseFailed (provider : Provider) (error : ParseError)
  | interrupted (provider : Provider) (cause : Error)

/-- A reaction when one more notification is written down. -/
def Reaction.logging {σ : Type} (log : List Notification) (notification : Notification)
    (reaction : Reaction σ) : Reaction (σ × List Notification) :=
  { state := (reaction.state, log ++ [notification])
    remarks := reaction.remarks
    stop := reaction.stop }

/-- A listener that does as it did, and whose notifications are written down. -/
def Listener.logged {σ : Type} (listener : Listener σ) : Listener (σ × List Notification) where
  added := fun (state, log) provider record =>
    (listener.added state provider record).logging log (.added provider record)
  outOfOrder := fun (state, log) provider line cause =>
    let (verdict, reaction) := listener.outOfOrder state provider line cause
    (verdict, reaction.logging log (.outOfOrder provider line cause))
  parseFailed := fun (state, log) provider e =>
    let (verdict, reaction) := listener.parseFailed state provider e
    (verdict, reaction.logging log (.parseFailed provider e))
  interrupted := fun (state, log) provider cause =>
    (listener.interrupted state provider cause).logging log (.interrupted provider cause)

namespace Run

variable {σ α : Type}

/-- A run whose notifications are written down from here on. -/
def watched (run : Run σ α) : Run (σ × List Notification) α :=
  { builder :=
      { provider := run.builder.provider
        storage := run.builder.storage
        listener := run.builder.listener.logged
        state := (run.builder.state, [])
        phase := run.builder.phase
        last := run.builder.last
        counts := run.builder.counts }
    overlay := run.overlay
    disk := run.disk
    interrupted := run.interrupted
    remarks := run.remarks
    failure := run.failure }

/-- The notifications of a run that are written down. -/
def notifications (run : Run (σ × List Notification) α) : List Notification := run.builder.state.2

/-! ## Up to remarks -/

/-- Runs that differ in nothing but their remarks. -/
structure Alike (run run' : Run σ α) : Prop where
  builder : run.builder = run'.builder
  overlay : run.overlay = run'.overlay
  disk : run.disk = run'.disk
  interrupted : run.interrupted = run'.interrupted
  failure : run.failure = run'.failure

section

variable {run run' run'' : Run σ α}

theorem Alike.trans (h : Alike run run') (h' : Alike run' run'') : Alike run run'' :=
  ⟨h.builder.trans h'.builder, h.overlay.trans h'.overlay, h.disk.trans h'.disk,
    h.interrupted.trans h'.interrupted, h.failure.trans h'.failure⟩

theorem alike_remarks (run : Run σ α) (remarks : Journal) : Alike { run with remarks } run :=
  ⟨rfl, rfl, rfl, rfl, rfl⟩

theorem Alike.absorb (h : Alike run run') (reply : Builder.Reply σ) :
    Alike (run.absorb reply) (run'.absorb reply) :=
  ⟨rfl, h.overlay, h.disk, congrArg (· || reply.stop) h.interrupted, rfl⟩

theorem Alike.store (h : Alike run run') (remarks : Journal) (piece : Record) :
    Alike (run.store remarks piece).1 (run'.store remarks piece).1 ∧
      (run.store remarks piece).2 = (run'.store remarks piece).2 := by
  rw [Run.store, Run.store, h.builder]
  have hsame : Alike { run with remarks := run.remarks ++ remarks }
      { run' with remarks := run'.remarks ++ remarks } :=
    ⟨h.builder, h.overlay, h.disk, h.interrupted, h.failure⟩
  exact ⟨hsame.absorb _, rfl⟩

theorem Alike.handOver (h : Alike run run') (s : Sweep α) (cuts : List (Sweep.Cut α)) :
    Alike (Sweep.handOver Run.store run s cuts).1 (Sweep.handOver Run.store run' s cuts).1 ∧
      (Sweep.handOver Run.store run s cuts).2 = (Sweep.handOver Run.store run' s cuts).2 := by
  induction cuts generalizing run run' s with
  | nil => exact ⟨h, rfl⟩
  | cons cut cuts ih =>
    obtain ⟨hrun, herror⟩ := h.store cut.remarks cut.piece
    rw [Sweep.handOver, Sweep.handOver]
    cases hstore : run.store cut.remarks cut.piece with
    | mk next error =>
      cases hstore' : run'.store cut.remarks cut.piece with
      | mk next' error' =>
        rw [hstore, hstore'] at hrun herror
        obtain rfl : error = error' := herror
        cases error with
        | none => exact ih hrun cut.sweep
        | some e => exact ⟨hrun, rfl⟩

theorem Alike.insert (h : Alike run run') (record : Record) :
    Alike (run.insert record) (run'.insert record) := by
  rw [Run.insert, Run.insert, ← h.overlay]
  cases run.overlay with
  | none =>
    rw [h.builder]
    exact h.absorb _
  | some sweep =>
    obtain ⟨hrun, hrest⟩ := h.handOver sweep (sweep.cuts record)
    exact ⟨hrun.builder, congrArg (fun rest => some rest.2) hrest, hrun.disk, hrun.interrupted,
      hrun.failure⟩

theorem Alike.heed (h : Alike run run') : Alike run.heed run'.heed := by
  rw [Run.heed, Run.heed, h.interrupted, h.failure]
  split
  · rw [h.builder, h.disk]
    exact ⟨rfl, h.overlay, rfl, rfl, rfl⟩
  · exact h

theorem Alike.step (h : Alike run run') (result : LineResult) :
    Alike (run.step result) (run'.step result) := by
  have hheed := h.heed
  simp only [Run.step, hheed.failure]
  split
  · exact hheed
  · cases result with
    | ok record => exact hheed.insert record
    | error e =>
      simp only [hheed.builder]
      exact hheed.absorb _

theorem Alike.feed (h : Alike run run') (results : List LineResult) :
    Alike (run.feed results) (run'.feed results) := by
  induction results generalizing run run' with
  | nil => exact h
  | cons result results ih => exact ih (h.step result)

theorem Alike.close (h : Alike run run') (fault : Option IoError) :
    Alike (run.close fault) (run'.close fault) := by
  have hheed := h.heed
  refine ⟨hheed.builder, hheed.overlay, hheed.disk, hheed.interrupted, ?_⟩
  exact congrArg (Option.or · (fault.map Error.io)) hheed.failure

/-- The two ends of a source differ in a remark at most. -/
theorem alike_closeBatches (run : Run σ α) (label : Path) (fault : Option IoError) :
    Alike (run.closeBatches label fault) (run.close fault) := by
  cases hfailure : run.heed.failure with
  | some e =>
    simp only [closeBatches, close, hfailure]
    exact ⟨rfl, rfl, rfl, rfl, hfailure⟩
  | none =>
    cases fault with
    | some e =>
      simp only [closeBatches, close, hfailure]
      exact ⟨rfl, rfl, rfl, rfl, rfl⟩
    | none =>
      simp only [closeBatches, close, hfailure]
      exact ⟨rfl, rfl, rfl, rfl, hfailure⟩

/-! ## Runs that are over -/

theorem heed_of_failure (h : run.failure.isSome) : run.heed = run := by
  rw [heed, if_neg]
  rw [Option.isNone_iff_eq_none]
  intro hover
  rw [hover.2] at h
  exact nomatch h

theorem heed_of_not_interrupted (h : run.interrupted = false) : run.heed = run := by
  rw [heed, if_neg]
  rw [h]
  exact fun hover => Bool.false_ne_true hover.1

theorem step_of_failure (h : run.failure.isSome) (result : LineResult) : run.step result = run := by
  simp only [step, heed_of_failure h, if_pos h]

theorem feed_of_failure (h : run.failure.isSome) (results : List LineResult) :
    run.feed results = run := by
  induction results with
  | nil => rfl
  | cons result results ih =>
    rw [feed, List.foldl_cons, step_of_failure h]
    exact ih

theorem close_of_failure (h : run.failure.isSome) (fault : Option IoError) :
    run.close fault = run := by
  obtain ⟨e, he⟩ := Option.isSome_iff_exists.1 h
  obtain ⟨_, _, _, _, _, _⟩ := run
  rw [close, heed_of_failure h]
  simp only at he
  rw [he]
  rfl

theorem result_interrupt (b : Builder σ) (disk : Disk) :
    (b.interrupt disk).1.result = .error (.interrupted b.provider) := by
  rw [Builder.interrupt.eq_def]
  cases b.phase <;> rfl

/-- An interruption that was asked for makes the run fail when it is heeded. -/
theorem failure_heed_of_interrupted (h : run.interrupted) : run.heed.failure.isSome := by
  rw [heed]
  split
  · exact congrArg (fun result => (errorOf? result).isSome) (result_interrupt run.builder run.disk)
  · rename_i hnot
    rw [Option.isSome_iff_ne_none]
    exact fun hnone => hnot ⟨h, by rw [hnone]; rfl⟩

/-- A run that goes on after it heeded an interruption had not failed and did not have to. -/
theorem undisturbed_of_heed (h : run.heed.failure = none) :
    run.interrupted = false ∧ run.failure = none := by
  refine ⟨?_, ?_⟩
  · by_contra hinterrupted
    have hfailure := failure_heed_of_interrupted (eq_true_of_ne_false hinterrupted)
    rw [h] at hfailure
    exact absurd hfailure Bool.false_ne_true
  · by_contra hfailure
    rw [heed_of_failure (Option.isSome_iff_ne_none.2 hfailure)] at h
    exact hfailure h

/-- A run that goes on after a result had not failed, and no interruption was wanted. -/
theorem undisturbed_of_step {result : LineResult} (h : (run.step result).failure = none) :
    run.interrupted = false ∧ run.failure = none := by
  refine undisturbed_of_heed ?_
  by_contra hfailure
  have hstep : run.step result = run.heed := by
    simp only [step, if_pos (Option.isSome_iff_ne_none.2 hfailure)]
  rw [hstep] at h
  exact hfailure h

theorem feed_cons (run : Run σ α) (result : LineResult) (results : List LineResult) :
    run.feed (result :: results) = (run.step result).feed results := rfl

theorem feed_append (run : Run σ α) (results results' : List LineResult) :
    run.feed (results ++ results') = (run.feed results).feed results' :=
  List.foldl_append

/-- A run that fails when it heeds an interruption comes to the same if it is fed more before. -/
theorem heed_feed_of_failure (h : run.heed.failure.isSome) (results : List LineResult) :
    (run.feed results).heed = run.heed := by
  cases results with
  | nil => rfl
  | cons result results =>
    have hstep : run.step result = run.heed := by simp only [step, if_pos h]
    rw [feed_cons, hstep, feed_of_failure h, heed_of_failure h]

/-- A run that takes nothing any more: it has failed, or an interruption was asked for. -/
def Over (run : Run σ α) : Prop := run.failure.isSome ∨ run.interrupted = true

/-- **A run that is over comes to the same whatever it is fed.** -/
theorem close_feed_of_over (h : run.Over) (results : List LineResult) (fault : Option IoError) :
    (run.feed results).close fault = run.close fault := by
  rcases h with h | h
  · rw [feed_of_failure h]
  · have hfailure := failure_heed_of_interrupted h
    cases results with
    | nil => rfl
    | cons result results =>
      have hstep : run.step result = run.heed := by simp only [step, if_pos hfailure]
      rw [feed, List.foldl_cons, hstep, ← feed, feed_of_failure hfailure,
        close_of_failure hfailure, close]
      have hclose := close_of_failure hfailure fault
      rw [close, heed_of_failure hfailure] at hclose
      exact hclose.symm

/-- It comes to the same as well however its source ends. -/
theorem close_of_over (h : run.Over) (fault fault' : Option IoError) :
    run.close fault = run.close fault' := by
  have hfailure : run.heed.failure.isSome := by
    rcases h with h | h
    · rwa [heed_of_failure h]
    · exact failure_heed_of_interrupted h
  obtain ⟨e, he⟩ := Option.isSome_iff_exists.1 hfailure
  simp only [close, he, Option.some_or]

end

end Run

/-! ## Batches in their order -/

namespace Consumer

variable {σ α : Type}

/-- A consumer of the batches of some results, of which some have arrived: it has taken those before
its turn and nothing else, and the others that have arrived are waiting. -/
structure Sound (start : Run σ α) (results : List (List LineResult))
    (arrived : List (Nat × List LineResult)) (c : Consumer σ α) : Prop where
  run_eq : c.run = start.feed (results.take c.next).flatten
  right : ∀ w ∈ c.waiting, results[w.1]? = some w.2
  kept : ∀ w ∈ arrived, w.1 < c.next ∨ w ∈ c.waiting

/-- A sound consumer that has taken whatever it could. -/
structure Settled (start : Run σ α) (results : List (List LineResult))
    (arrived : List (Nat × List LineResult)) (c : Consumer σ α) : Prop
    extends c.Sound start results arrived where
  released : ∀ w ∈ c.waiting, w.1 ≠ c.next

section

variable {start : Run σ α} {results : List (List LineResult)}
  {arrived : List (Nat × List LineResult)} {c : Consumer σ α}

theorem Sound.release (h : c.Sound start results arrived) :
    c.release.Settled start results arrived := by
  induction c using Consumer.release.induct with
  | case1 c hnone =>
    rw [Consumer.release.eq_def]
    split
    · refine ⟨h, fun w hw hnext => ?_⟩
      exact List.find?_eq_none.1 hnone w hw (by simpa using hnext)
    · rename_i hsome
      rw [hnone] at hsome
      exact nomatch hsome
  | case2 c number taken hfind _ ih =>
    rw [Consumer.release.eq_def]
    split
    · rename_i hnone
      rw [hfind] at hnone
      exact nomatch hnone
    rename_i number' taken' hfind'
    obtain ⟨rfl, rfl⟩ := Prod.mk.inj (Option.some_inj.1 (hfind.symm.trans hfind'))
    have hnumber : number = c.next := by simpa using List.find?_some hfind
    have htaken := h.right _ (List.mem_of_find?_eq_some hfind)
    refine ih ⟨?_, fun w hw => h.right w (List.mem_of_mem_eraseP hw), fun w hw => ?_⟩
    · rw [h.run_eq]
      simp only [Run.feed]
      rw [← List.foldl_append, List.take_add_one]
      simp only at htaken
      rw [← hnumber, htaken, Option.toList_some, List.flatten_append]
      simp
    · rcases h.kept w hw with hlt | hmem
      · exact Or.inl (Nat.lt_succ_of_lt hlt)
      · by_cases hturn : w.1 = c.next
        · exact Or.inl (by rw [hturn]; exact Nat.lt_succ_self _)
        · exact Or.inr ((List.mem_eraseP_of_neg (by simpa using hturn)).2 hmem)

theorem Settled.arrive (h : c.Settled start results arrived) {arrival : Nat × List LineResult}
    (harrival : results[arrival.1]? = some arrival.2) :
    (c.arrive arrival).Settled start results (arrived ++ [arrival]) := by
  refine Sound.release ⟨h.run_eq, List.forall_mem_cons.2 ⟨harrival, h.right⟩, ?_⟩
  refine List.forall_mem_append.2 ⟨fun w hw => ?_, ?_⟩
  · exact (h.kept w hw).imp_right (List.mem_cons_of_mem _)
  · simp

theorem Settled.foldl_arrive (h : c.Settled start results arrived)
    (arrivals : List (Nat × List LineResult))
    (hright : ∀ w ∈ arrivals, results[w.1]? = some w.2) :
    (arrivals.foldl Consumer.arrive c).Settled start results (arrived ++ arrivals) := by
  induction arrivals generalizing c arrived with
  | nil => simpa using h
  | cons arrival arrivals ih =>
    obtain ⟨harrival, hright⟩ := List.forall_mem_cons.1 hright
    have hmore := ih (h.arrive harrival) hright
    rw [List.append_assoc, List.singleton_append] at hmore
    exact hmore

/-- If everything has arrived, everything is taken. -/
theorem Settled.length_le (h : c.Settled start results arrived)
    (hall : ∀ n < results.length, n ∈ arrived.map Prod.fst) : results.length ≤ c.next := by
  by_contra hlt
  obtain ⟨w, hw, hturn⟩ := List.mem_map.1 (hall c.next (by omega))
  rcases h.kept w hw with hpast | hwaiting
  · omega
  · exact h.released w hwaiting hturn

end

end Consumer

namespace Run

variable {σ α : Type}

/-- **Batches are taken in their order, whichever way they arrive**: all of them if all arrive, and
otherwise so many. -/
theorem exists_consume_eq (run : Run σ α) (results : List (List LineResult))
    (arrivals : List (Nat × List LineResult))
    (hright : ∀ w ∈ arrivals, results[w.1]? = some w.2) :
    ∃ taken, run.consume arrivals = run.feed (results.take taken).flatten ∧
      ((∀ n < results.length, n ∈ arrivals.map Prod.fst) → results.length ≤ taken) := by
  have hstart : Consumer.Settled run results [] { run } :=
    ⟨⟨by rw [List.take_zero]; rfl, by simp, by simp⟩, by simp⟩
  have hend := hstart.foldl_arrive arrivals hright
  exact ⟨_, hend.run_eq, fun hall => hend.length_le (by simpa using hall)⟩

/-- What a run may come to that ingests a source in batches.  The source arrives in any reads up to
its first interruption, and the batches in any order; some may be missing if the run has failed by
then, or is to be interrupted, because then nobody reads or waits for them. -/
def MayIngest (run : Run σ α) (reader : LineReader) (settings : Settings) (label : Path)
    (source : Supply) (final : Run σ α) : Prop :=
  ∃ (reads : List Bytes) (arrivals : List (Nat × List LineResult)) (consumed : Run σ α),
    reads.flatten = source.stopped.bytes ∧
      arrivals ⊆ numberedResults reader settings.keepSource
        (batches 1 [] source.stopped.fault.isNone reads) ∧
      consumed = ({ run with
        remarks := run.remarks ++ [run.opening label settings] } : Run σ α).consume arrivals ∧
      (numberedResults reader settings.keepSource (batches 1 [] source.stopped.fault.isNone reads) ⊆
        arrivals ∨ consumed.Over) ∧
      final = consumed.closeBatches label source.stopped.fault

theorem ingestLines_stream (run : Run σ α) (reader : LineReader) (keepSource : Bool)
    (source : Stream) :
    run.ingestLines reader keepSource source =
      (run.feed (source.lines.map (reader keepSource))).close source.fault := rfl

theorem mem_numberedResults {reader : LineReader} {keepSource : Bool} {batches : List Batch}
    {w : Nat × List LineResult} :
    w ∈ numberedResults reader keepSource batches ↔
      (batches.map fun batch => batch.lines.map (reader keepSource))[w.1]? = some w.2 := by
  obtain ⟨number, results⟩ := w
  rw [numberedResults, List.getElem?_map, Option.map_eq_some_iff]
  simp only [List.mem_map, Prod.mk.injEq, Prod.exists, List.mem_zipIdx_iff_getElem?]
  constructor
  · rintro ⟨batch, _, hbatch, rfl, rfl⟩
    exact ⟨batch, hbatch, rfl⟩
  · rintro ⟨batch, hbatch, rfl⟩
    exact ⟨batch, number, hbatch, rfl, rfl⟩

/-- The results of all batches are those of the lines of the source. -/
theorem flatten_results (reader : LineReader) (keepSource : Bool) (source : Stream)
    {reads : List Bytes} (hreads : reads.flatten = source.bytes) :
    ((batches 1 [] source.fault.isNone reads).map fun batch =>
      batch.lines.map (reader keepSource)).flatten = source.lines.map (reader keepSource) := by
  rw [← source.flatMap_lines_batches hreads, List.map_flatMap, List.flatMap_def]

/-- The run of the library that ingests in batches is one of these. -/
theorem mayIngest_ingest (run : Run σ α) (reader : LineReader) (settings : Settings) (label : Path)
    (source : Supply) :
    run.MayIngest reader settings label source (run.ingest reader settings label source) :=
  ⟨readsOf settings.batchBytes source.stopped.bytes, _, _, flatten_readsOf _ _, fun _ h => h, rfl,
    Or.inl fun _ h => h, rfl⟩

/-- **Up to remarks a run in batches comes to what it comes to line by line**, over the source as it
is to those who do not ask again. -/
theorem MayIngest.alike {run final : Run σ α} {reader : LineReader} {settings : Settings}
    {label : Path} {source : Supply} (h : run.MayIngest reader settings label source final) :
    Alike final (run.ingestLines reader settings.keepSource source.stopped) := by
  obtain ⟨reads, arrivals, consumed, hreads, hright, hconsumed, hover, rfl⟩ := h
  have hflat := flatten_results reader settings.keepSource source.stopped hreads
  generalize hresults : ((batches 1 [] source.stopped.fault.isNone reads).map fun batch =>
    batch.lines.map (reader settings.keepSource)) = results at hflat
  have hmem : ∀ w : Nat × List LineResult, w ∈ numberedResults reader settings.keepSource
      (batches 1 [] source.stopped.fault.isNone reads) ↔ results[w.1]? = some w.2 := by
    rw [← hresults]
    exact fun w => mem_numberedResults
  obtain ⟨taken, htaken, hall⟩ := exists_consume_eq
    ({ run with remarks := run.remarks ++ [run.opening label settings] } : Run σ α) results arrivals
    fun w hw => (hmem w).1 (hright hw)
  have hsame : consumed.Alike (run.feed (results.take taken).flatten) := by
    rw [hconsumed, htaken]
    exact (run.alike_remarks _).feed _
  have hrest : ((run.feed (results.take taken).flatten).feed
      (results.drop taken).flatten).close source.stopped.fault =
        (run.feed (results.take taken).flatten).close source.stopped.fault := by
    rcases hover with hcomplete | hover
    · have hle : results.length ≤ taken := by
        refine hall fun n hn => ?_
        have hw := (hmem (n, results[n])).2 (List.getElem?_eq_getElem hn)
        exact List.mem_map_of_mem (f := Prod.fst) (hcomplete hw)
      rw [List.drop_eq_nil_of_le hle]
      rfl
    · rw [Over, hsame.failure, hsame.interrupted] at hover
      exact close_feed_of_over hover _ _
  have hlines : run.feed (source.stopped.lines.map (reader settings.keepSource)) =
      (run.feed (results.take taken).flatten).feed (results.drop taken).flatten := by
    rw [feed, feed, feed, ← List.foldl_append, ← List.flatten_append, List.take_append_drop, hflat]
  rw [ingestLines_stream, hlines, hrest]
  exact (consumed.alike_closeBatches label _).trans (hsame.close _)

end Run

end IpAtlas
