import IpAtlas.Proofs.Pipeline.Places

/-!
# What every schedule comes to

The parties of a pipeline carry batches and results about under the numbers they belong to, so the
run is fed the results of the source in their order, whichever party comes next.  When every party
has ended, the run has come to what it comes to when the batches are taken one after the other, and
nothing about it tells the schedule.

An interruption from outside changes that in one way: the run may come to an end after any of the
results, as if its listener had wanted it interrupted there.

## What is here

* `Plan.results`, `Plan.ingest` — the results of a source, and what a run makes of them in order.
* `Carried` — numbers go with what they belong to.
* `Follows`, `Fed` — what the run has been fed.
* `Finished` — a run that does not fail is fed everything.
* `Reachable.follows_outcome`, `Reachable.outcome_eq` — what the run comes to.
-/

set_option autoImplicit false

namespace IpAtlas

namespace Pipeline

variable {σ α : Type} {plan : Plan} {run run' : Run σ α} {s s' : State σ α} {i : Nat}

/-! ## In order -/

namespace Plan

variable (plan : Plan)

/-- What the batches come to. -/
def results : List (List LineResult) := plan.batches.map plan.parse

/-- What the batches before one come to. -/
def before (n : Nat) : List LineResult := (plan.results.take n).flatten

/-- What a run comes to that takes one batch after the other. -/
def ingest (run : Run σ α) : Run σ α :=
  ((plan.opened run).consume
    (Run.numberedResults plan.reader plan.settings.keepSource plan.batches)).closeBatches
      plan.label plan.fault

variable {plan}

theorem before_succ {n : Nat} {results : List LineResult} (h : plan.results[n]? = some results) :
    plan.before (n + 1) = plan.before n ++ results := by
  rw [before, List.take_add_one, h, List.flatten_append, ← before]
  simp

theorem before_prefix (n : Nat) : plan.before n <+: plan.results.flatten := by
  refine ⟨(plan.results.drop n).flatten, ?_⟩
  rw [before, ← List.flatten_append, List.take_append_drop]

theorem before_of_le {n : Nat} (h : plan.batches.length ≤ n) :
    plan.before n = plan.results.flatten := by
  rw [before, List.take_of_length_le]
  rwa [results, List.length_map]

theorem ingest_eq (run : Run σ α) :
    plan.ingest run =
      ((plan.opened run).feed plan.results.flatten).heed.conclude plan.label plan.fault := by
  have hmem : ∀ w : Nat × List LineResult,
      w ∈ Run.numberedResults plan.reader plan.settings.keepSource plan.batches ↔
        plan.results[w.1]? = some w.2 := fun _ => Run.mem_numberedResults
  obtain ⟨taken, htaken, hall⟩ :=
    (plan.opened run).exists_consume_eq plan.results _ fun w hw => (hmem w).1 hw
  have hle : plan.results.length ≤ taken := by
    refine hall fun n hn => ?_
    have hw := (hmem (n, plan.results[n])).2 (List.getElem?_eq_getElem hn)
    exact List.mem_map_of_mem (f := Prod.fst) hw
  rw [ingest, htaken, List.take_of_length_le hle]
  rfl

end Plan

end Pipeline

/-- A run that ingests a source in batches takes one after the other. -/
theorem Run.ingest_eq {σ α : Type} (run : Run σ α) (reader : LineReader) (settings : Settings)
    (label : Path) (source : Stream) :
    run.ingest reader settings label source =
      Pipeline.Plan.ingest
        { reader, settings, label
          batches := source.batches settings.batchBytes
          fault := source.fault } run := rfl

namespace Pipeline

variable {σ α : Type} {plan : Plan} {run run' : Run σ α} {s s' : State σ α} {i : Nat}

/-! ## What belongs to a number -/

/-- The batch in the hand of a reader. -/
def Reader.batch? : Reader → Option Batch
  | holding batch | sending batch => some batch
  | _ => none

/-- Whether what a worker has belongs to the number it has it under. -/
def Worker.Carries (plan : Plan) : Worker → Prop
  | parsing number batch => plan.batches[number]? = some batch
  | sending number results => plan.results[number]? = some results
  | _ => True

/-- Whatever is on its way belongs to the number that it goes under. -/
structure Carried (plan : Plan) (s : State σ α) : Prop where
  reader : ∀ batch ∈ s.reader.batch?, plan.batches[s.sequence]? = some batch
  batches : ∀ e ∈ s.batches, plan.batches[e.1]? = some e.2
  workers : ∀ w ∈ s.workers, w.Carries plan
  results : ∀ e ∈ s.results, plan.results[e.1]? = some e.2
  waiting : ∀ e ∈ s.consumer.waiting, plan.results[e.1]? = some e.2

theorem Carried.of_start : Carried plan (.start plan run) := ⟨nofun, nofun, nofun, nofun, nofun⟩

theorem Carried.reader_step (h : Carried plan s) (hnumbered : Numbered s)
    (step : ReaderStep plan s s') : Carried plan s' := by
  obtain ⟨reader, batches, workers, results, waiting⟩ := h
  have hnumber := hnumbered step.isEnded
  cases step with
  | takePermit stands | runOut stands | reachEnd stands | giveUp stands | drop stands =>
    exact ⟨nofun, batches, workers, results, waiting⟩
  | read stands is_next =>
    rw [stands] at hnumber
    have hsequence : s.sequence = s.read := hnumber
    refine ⟨fun batch hbatch => ?_, batches, workers, results, waiting⟩
    obtain rfl := Option.some_inj.1 hbatch
    rwa [hsequence]
  | goOn stands =>
    rw [stands] at reader
    exact ⟨reader, batches, workers, results, waiting⟩
  | send stands =>
    rw [stands] at reader
    refine ⟨nofun, ?_, workers, results, waiting⟩
    exact List.forall_mem_append.2 ⟨batches, List.forall_mem_singleton.2 (reader _ rfl)⟩

theorem Carried.worker_step (h : Carried plan s) (step : WorkerStep plan i s s') :
    Carried plan s' := by
  obtain ⟨reader, batches, workers, results, waiting⟩ := h
  have hset : ∀ w : Worker, w.Carries plan → ∀ w' ∈ s.workers.set i w, w'.Carries plan := by
    intro w hw w' hw'
    rcases List.mem_or_eq_of_mem_set hw' with hmem | rfl
    · exact workers w' hmem
    · exact hw
  cases step with
  | take stands is_first =>
    rw [is_first] at batches
    obtain ⟨hfirst, hrest⟩ := List.forall_mem_cons.1 batches
    exact ⟨reader, hrest, hset _ hfirst, results, waiting⟩
  | runOut stands | drop stands => exact ⟨reader, batches, hset _ trivial, results, waiting⟩
  | @parse number batch stands =>
    have hbatch : plan.batches[number]? = some batch := workers _ (List.mem_of_getElem? stands)
    refine ⟨reader, batches, hset _ ?_, results, waiting⟩
    show plan.results[number]? = some (plan.parse batch)
    rw [Plan.results, List.getElem?_map, hbatch]
    rfl
  | @send number found stands =>
    have hfound : plan.results[number]? = some found := workers _ (List.mem_of_getElem? stands)
    refine ⟨reader, batches, hset _ trivial, ?_, waiting⟩
    exact List.forall_mem_append.2 ⟨results, List.forall_mem_singleton.2 hfound⟩

theorem Carried.consumer_step (h : Carried plan s) (step : ConsumerStep plan s s') :
    Carried plan s' := by
  obtain ⟨reader, batches, workers, results, waiting⟩ := h
  cases step with
  | launch stands =>
    refine ⟨reader, batches, ?_, results, waiting⟩
    exact List.forall_mem_append.2 ⟨workers, List.forall_mem_singleton.2 trivial⟩
  | receive stands is_first =>
    rw [is_first] at results
    obtain ⟨hfirst, hrest⟩ := List.forall_mem_cons.1 results
    exact ⟨reader, batches, workers, hrest, List.forall_mem_cons.2 ⟨hfirst, waiting⟩⟩
  | release stands =>
    exact ⟨reader, batches, workers, results, fun e he => waiting e (List.mem_of_mem_eraseP he)⟩
  | _ => exact ⟨reader, batches, workers, results, waiting⟩

/-- **Numbers go with what they belong to under every schedule.** -/
theorem Reachable.carried (h : Reachable plan run s) : Carried plan s := by
  induction h with
  | start => exact .of_start
  | step reached step ih =>
    cases step with
    | reader step => exact ih.reader_step reached.lawful.numbered step
    | worker i step => exact ih.worker_step step
    | consumer step => exact ih.consumer_step step
  | interrupt _ ih => exact ⟨ih.reader, ih.batches, ih.workers, ih.results, ih.waiting⟩

/-! ## What the run has been fed -/

/-- A run, which may have been disturbed since. -/
def Follows (disturbed : Bool) (run run' : Run σ α) : Prop :=
  run = run' ∨ (disturbed = true ∧ run = run'.disturb)

theorem Follows.disturb {disturbed : Bool} (h : Follows disturbed run run') :
    Follows true run.disturb run' := by
  rcases h with rfl | ⟨-, rfl⟩ <;> exact Or.inr ⟨rfl, rfl⟩

/-- A run that takes a result has not been disturbed. -/
theorem Follows.eq_of_step {disturbed : Bool} {result : LineResult}
    (h : Follows disturbed run run') (hstep : (run.step result).failure = none) : run = run' := by
  refine h.resolve_right fun hdisturbed => ?_
  have hunset := (Run.undisturbed_of_step hstep).1
  rw [hdisturbed.2] at hunset
  exact nomatch hunset

theorem failure_disturb_heed (run : Run σ α) : run.disturb.heed.failure.isSome :=
  Run.failure_heed_of_interrupted rfl

theorem step_disturb (run : Run σ α) (result : LineResult) :
    run.disturb.step result = run.disturb.heed := by
  simp only [Run.step, if_pos (failure_disturb_heed run)]

/-- What has been fed to the run, from the results that come before the next batch: all but what is
left of a batch that is being inserted.  A run that has come to its end early has failed at one of
them, or was disturbed after some. -/
structure Fed (plan : Plan) (start : Run σ α) (s : State σ α) : Prop where
  atWork : s.stage.isAtWork = true →
    ∃ fed, fed ++ s.stage.rest = plan.before s.consumer.next ∧
      Follows s.disturbed s.run (start.feed fed)
  left : s.stage.isAtWork = false →
    Follows s.disturbed s.run (start.feed (plan.before s.consumer.next)).heed ∨
      (s.disturbed = true ∧ ∃ fed, fed <+: plan.results.flatten ∧
        Follows true s.run (start.feed fed).disturb.heed)

theorem Fed.of_start : Fed plan (plan.opened run) (.start plan run) :=
  ⟨fun _ => ⟨[], rfl, Or.inl rfl⟩, nofun⟩

theorem Fed.interrupt (h : Fed plan run s) : Fed plan run s.interrupt := by
  refine ⟨fun hwork => ?_, fun hleft => ?_⟩
  · obtain ⟨fed, hfed, hfollows⟩ := h.atWork hwork
    exact ⟨fed, hfed, hfollows.disturb⟩
  · rcases h.left hleft with hfollows | ⟨-, fed, hfed, hfollows⟩
    · exact Or.inl hfollows.disturb
    · exact Or.inr ⟨rfl, fed, hfed, hfollows.disturb⟩

theorem Fed.consumer_step (h : Fed plan run s) (hcarried : Carried plan s)
    (step : ConsumerStep plan s s') : Fed plan run s' := by
  obtain ⟨atWork, left⟩ := h
  cases step with
  | launch stands => exact ⟨atWork, left⟩
  | leaveBatches stands | leaveResults stands | receive stands | runOut stands | settle stands
  | complete stands | handBack stands | keep stands =>
    rw [stands] at atWork
    exact ⟨atWork, nofun⟩
  | dropPermits stands | dropResults stands | join stands =>
    rw [stands] at left
    exact ⟨nofun, left⟩
  | @release number results stands is_next =>
    rw [stands] at atWork
    obtain ⟨fed, hfed, hfollows⟩ := atWork rfl
    have hnumber : number = s.consumer.next := by simpa using List.find?_some is_next
    have hresults : plan.results[s.consumer.next]? = some results := by
      rw [← hnumber]
      exact hcarried.waiting _ (List.mem_of_find?_eq_some is_next)
    have hall : fed = plan.before s.consumer.next := (List.append_nil fed).symm.trans hfed
    refine ⟨fun _ => ⟨fed, ?_, hfollows⟩, nofun⟩
    rw [hall]
    exact (Plan.before_succ hresults).symm
  | @insert number result rest stands succeeds =>
    rw [stands] at atWork
    obtain ⟨fed, hfed, hfollows⟩ := atWork rfl
    refine ⟨fun _ => ⟨fed ++ [result], ?_, Or.inl ?_⟩, nofun⟩
    · rw [List.append_assoc]
      exact hfed
    · rw [Run.feed_append, ← hfollows.eq_of_step succeeds]
      rfl
  | @fail number result rest stands fails =>
    rw [stands] at atWork
    obtain ⟨fed, hfed, hfollows⟩ := atWork rfl
    have hsplit : plan.before s.consumer.next = fed ++ (result :: rest) := hfed.symm
    refine ⟨nofun, fun _ => ?_⟩
    rcases hfollows with hsame | ⟨hdisturbed, hsame⟩
    · refine Or.inl (Or.inl ?_)
      rw [hsame] at fails
      show s.run.step result = (run.feed (plan.before s.consumer.next)).heed
      rw [hsplit, hsame, Run.feed_append, Run.feed_cons, Run.feed_of_failure fails,
        Run.heed_of_failure fails]
    · refine Or.inr ⟨hdisturbed, fed, ?_, Or.inl ?_⟩
      · exact (hsplit ▸ List.prefix_append _ _ : fed <+: plan.before s.consumer.next).trans
          (Plan.before_prefix _)
      · show s.run.step result = _
        rw [hsame, step_disturb]
  | close stands =>
    rw [stands] at atWork
    obtain ⟨fed, hfed, hfollows⟩ := atWork rfl
    have hall : fed = plan.before s.consumer.next := (List.append_nil fed).symm.trans hfed
    rw [hall] at hfollows
    refine ⟨nofun, fun _ => ?_⟩
    rcases hfollows with hsame | ⟨hdisturbed, hsame⟩
    · exact Or.inl (Or.inl (congrArg Run.heed hsame))
    · exact Or.inr ⟨hdisturbed, _, Plan.before_prefix _, Or.inl (congrArg Run.heed hsame)⟩

/-- **The run is fed the results of the source in their order under every schedule.** -/
theorem Reachable.fed (h : Reachable plan run s) : Fed plan (plan.opened run) s := by
  induction h with
  | start => exact .of_start
  | step reached step ih =>
    cases step with
    | reader step => cases step <;> exact ⟨ih.atWork, ih.left⟩
    | worker i step => cases step <;> exact ⟨ih.atWork, ih.left⟩
    | consumer step => exact ih.consumer_step reached.carried step
  | interrupt _ ih => exact ih.interrupt

/-! ## Everything is inserted -/

/-- A reader that is gone, though nobody wanted an interruption and nothing failed, has read
everything. -/
def Completed (plan : Plan) (s : State σ α) : Prop :=
  ∀ fault, s.reader = .ended fault → s.run.interrupted = false → s.run.failure = none →
    fault = plan.fault ∧ plan.batches.length ≤ s.read

theorem Completed.of_start : Completed plan (.start plan run) := nofun

theorem Completed.reader_step (hlawful : Lawful plan s) (step : ReaderStep plan s s') :
    Completed plan s' := by
  intro fault hended hunset hfailure
  have hthere := step.not_ended
  cases step with
  | takePermit stands | read stands | goOn stands | send stands => exact nomatch hended
  | runOut stands none_left unsent =>
    have hover : s.stage.isOver = true := by
      cases hstage : s.stage <;> first | rfl | (rw [hstage] at unsent; exact nomatch unsent)
    exact absurd (hlawful.drained hover hfailure).1 hthere
  | reachEnd stands is_end =>
    obtain rfl := Reader.ended.inj hended
    exact ⟨rfl, List.getElem?_eq_none_iff.1 is_end⟩
  | giveUp stands interrupted =>
    have hset : s.run.interrupted = false := hunset
    rw [hset] at interrupted
    exact nomatch interrupted
  | drop stands untaken =>
    exact absurd (hlawful.gone_of_untaken hfailure untaken) hthere

theorem Completed.consumer_step (h : Completed plan s) (step : ConsumerStep plan s s') :
    Completed plan s' := by
  intro fault hended hunset hfailure
  obtain ⟨hbefore, hnone⟩ := step.undisturbed ⟨hunset, hfailure⟩
  have hread : s'.read = s.read := by cases step <;> rfl
  rw [step.reader_eq] at hended
  rw [hread]
  exact h fault hended hbefore hnone

theorem Reachable.completed (h : Reachable plan run s) : Completed plan s := by
  induction h with
  | start => exact .of_start
  | step reached step ih =>
    cases step with
    | reader step => exact .reader_step reached.lawful step
    | worker i step => cases step <;> exact ih
    | consumer step => exact ih.consumer_step step
  | interrupt _ ih => exact fun _ _ hunset => nomatch hunset

/-- A consumer that is done with inserting, and has not failed, has inserted everything. -/
def Finished (plan : Plan) (s : State σ α) : Prop :=
  s.stage.isAtWork = false → s.run.failure = none →
    s.reader = .ended plan.fault ∧ plan.batches.length ≤ s.consumer.next

theorem Finished.of_start : Finished plan (.start plan run) := nofun

/-- Nobody has anything when the consumer closes, so it has inserted everything that was read, and
the reader has read everything. -/
theorem Lawful.all_inserted (hlawful : Lawful plan s) (haccounted : Accounted s)
    (hcompleted : Completed plan s) (stands : s.stage = .closing)
    (hunset : s.run.interrupted = false) (hfailure : s.run.failure = none) :
    s.reader = .ended plan.fault ∧ plan.batches.length ≤ s.consumer.next := by
  obtain ⟨hgone, hidle, hbatches, hresults⟩ :=
    hlawful.drained (by rw [stands]; rfl) hfailure
  obtain ⟨fault, hreader⟩ : ∃ fault, s.reader = .ended fault := by
    cases hreader : s.reader with
    | ended fault => exact ⟨fault, rfl⟩
    | _ => rw [hreader] at hgone; exact nomatch hgone
  have hread := hlawful.read_le_next haccounted (Or.inl ⟨hunset, hfailure⟩)
    (by rw [stands]; rfl) (by rw [hreader]; rfl) hbatches
    (fun w hw => by rw [hidle w hw]; rfl) hresults
  obtain ⟨rfl, hall⟩ := hcompleted fault hreader hunset hfailure
  exact ⟨hreader, hall.trans hread⟩

theorem Finished.reader_step (h : Finished plan s) (step : ReaderStep plan s s') :
    Finished plan s' := by
  intro hleft hfailure
  have hreader : s.reader = .ended plan.fault := by cases step <;> exact (h hleft hfailure).1
  exact absurd (by rw [hreader]; rfl) step.not_ended

theorem Finished.consumer_step (h : Finished plan s) (hlawful : Lawful plan s)
    (haccounted : Accounted s) (hcompleted : Completed plan s) (step : ConsumerStep plan s s') :
    Finished plan s' := by
  intro hleft hfailure
  cases step with
  | close stands =>
    obtain ⟨hunset, hnone⟩ := Run.undisturbed_of_heed hfailure
    exact hlawful.all_inserted haccounted hcompleted stands hunset hnone
  | fail stands fails =>
    have hnone : (s.run.step _).failure = none := hfailure
    rw [hnone] at fails
    exact nomatch fails
  | launch stands => exact h hleft hfailure
  | dropPermits stands | dropResults stands | join stands =>
    exact h (by rw [stands]; rfl) hfailure
  | leaveBatches stands | leaveResults stands | receive stands | runOut stands | release stands
  | settle stands | insert stands | complete stands | handBack stands | keep stands =>
    exact nomatch hleft

/-- **A consumer that does not fail has inserted everything there is, under every schedule.** -/
theorem Reachable.finished (h : Reachable plan run s) : Finished plan s := by
  induction h with
  | start => exact .of_start
  | step reached step ih =>
    cases step with
    | reader step => exact ih.reader_step step
    | worker i step => cases step <;> exact ih
    | consumer step =>
      exact ih.consumer_step reached.lawful reached.accounted reached.completed step
  | interrupt _ ih => exact ih

/-! ## What it comes to -/

theorem conclude_of_failure (h : run.failure.isSome) (label : Path) (fault : Option IoError) :
    run.conclude label fault = run := by
  obtain ⟨e, he⟩ := Option.isSome_iff_exists.1 h
  rw [Run.conclude.eq_def, he]

theorem State.outcome_of_failure (h : s.run.failure.isSome) : s.outcome plan = s.run := by
  rw [State.outcome]
  split
  · exact conclude_of_failure h _ _
  · rfl

theorem Follows.conclude {disturbed : Bool} (h : Follows disturbed run run') (label : Path)
    (fault : Option IoError) :
    Follows disturbed (run.conclude label fault) (run'.conclude label fault) := by
  refine h.imp (congrArg (Run.conclude · label fault)) (And.imp_right ?_)
  rintro rfl
  rw [Run.conclude.eq_def, Run.conclude.eq_def]
  cases hfailure : run'.failure <;> cases fault <;> simp [Run.disturb, hfailure]

theorem Follows.failure_eq {disturbed : Bool} (h : Follows disturbed run run') :
    run.failure = run'.failure := by
  rcases h with rfl | ⟨-, rfl⟩ <;> rfl

/-- **Whatever the schedule, the run comes to what it comes to batch by batch**, or, if it was
disturbed, to what it comes to when an interruption is wanted after some of the results. -/
theorem Reachable.follows_outcome (h : Reachable plan run s) (hover : s.Over) :
    Follows s.disturbed (s.outcome plan) (plan.ingest run) ∨
      (s.disturbed = true ∧ ∃ fed, fed <+: plan.results.flatten ∧
        Follows true (s.outcome plan) ((plan.opened run).feed fed).disturb.heed) := by
  have hleft : s.stage.isAtWork = false := by rw [hover.consumer]; rfl
  rcases h.fed.left hleft with hfollows | ⟨hdisturbed, fed, hfed, hfollows⟩
  · refine Or.inl ?_
    rw [Plan.ingest_eq]
    cases hfailure : s.run.failure with
    | none =>
      obtain ⟨hreader, hnext⟩ := h.finished hleft hfailure
      rw [Plan.before_of_le hnext] at hfollows
      rw [State.outcome, hreader]
      exact hfollows.conclude _ _
    | some e =>
      have hfails : s.run.failure.isSome := by rw [hfailure]; rfl
      have hfailed := hfails
      rw [hfollows.failure_eq] at hfailed
      obtain ⟨rest, hrest⟩ : plan.before s.consumer.next <+: plan.results.flatten :=
        Plan.before_prefix _
      rw [← hrest, Run.feed_append, Run.heed_feed_of_failure hfailed, conclude_of_failure hfailed,
        State.outcome_of_failure hfails]
      exact hfollows
  · refine Or.inr ⟨hdisturbed, fed, hfed, ?_⟩
    rw [State.outcome_of_failure]
    · exact hfollows
    · rw [hfollows.failure_eq]
      exact failure_disturb_heed _

/-- **Undisturbed schedules all come to the same.** -/
theorem Reachable.outcome_eq (h : Reachable plan run s) (hover : s.Over)
    (hquiet : s.disturbed = false) : s.outcome plan = plan.ingest run := by
  rcases h.follows_outcome hover with (hsame | hdisturbed) | hdisturbed
  · exact hsame
  · rw [hquiet] at hdisturbed
    exact nomatch hdisturbed.1
  · rw [hquiet] at hdisturbed
    exact nomatch hdisturbed.1

/-- A pipeline over a source that arrives in the given reads. -/
def Plan.ofReads (reader : LineReader) (settings : Settings) (label : Path) (source : Stream)
    (reads : List Bytes) : Plan :=
  { reader, settings, label
    batches := IpAtlas.batches 1 [] source.fault.isNone reads
    fault := source.fault }

/-- Undisturbed schedules over a source come to what a run in batches may come to. -/
theorem Reachable.mayIngest {reader : LineReader} {settings : Settings} {label : Path}
    {source : Stream} {reads : List Bytes} (hreads : reads.flatten = source.bytes)
    (h : Reachable (.ofReads reader settings label source reads) run s) (hover : s.Over)
    (hquiet : s.disturbed = false) :
    run.MayIngest reader settings label source
      (s.outcome (.ofReads reader settings label source reads)) := by
  rw [h.outcome_eq hover hquiet]
  exact ⟨reads, _, _, hreads, fun _ hw => hw, rfl, Or.inl fun _ hw => hw, rfl⟩

end Pipeline

end IpAtlas
