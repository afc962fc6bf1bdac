import IpAtlas.Proofs.Builder.LifeCycle
import IpAtlas.Proofs.Ingest.Invariant

/-!
# Reads that are interrupted

A read of a source may be interrupted.  A run that goes line by line asks again then, and misses
nothing; one in batches takes the interruption for the end of the source, and fails.  So the two come
to the same if nobody interrupts a read, or if the lines before the first interruption are all that a
run takes, because it has failed by then or is to be interrupted itself.

Otherwise they can be told apart.  Line by line, a run fails with an interrupted read only if its
listener ends it so, and then the listener was told more than in batches.

## What is here

* `Run.Agrees` — runs that come to the same for whoever looks on.
* `Run.Unnoticed` — interruptions that a run does not come to notice.
* `Run.Told`, `Run.kept_told` — a listener that was told something before it ended a run.
* `Run.ingest_agrees_iff` — in batches and line by line, with interruptions.
-/

set_option autoImplicit false

namespace IpAtlas

variable {σ α : Type}

/-- An interrupted source fails before it goes on. -/
theorem Supply.bytes_stopped_prefix (source : Supply) :
    source.stopped.bytes <+: source.resumed.bytes := by
  obtain ⟨interrupted, rest⟩ := source
  cases interrupted with
  | nil => exact List.prefix_rfl
  | cons first more =>
    obtain ⟨bytes, message⟩ := first
    refine ⟨more.flatMap Prod.fst ++ rest.bytes, ?_⟩
    show bytes ++ _ = (bytes ++ more.flatMap Prod.fst) ++ rest.bytes
    rw [List.append_assoc]

theorem Builder.closedError_ne_io (b : Builder σ) (e : IoError) : b.closedError ≠ .io e := by
  intro h
  rw [closedError] at h
  split at h <;> cases h

namespace Run

/-- Runs that come to the same for whoever looks on: the result, what the listener was told, and what
the builder has counted, has stored, and is in the middle of. -/
structure Agrees (run run' : Run (σ × List Notification) α) : Prop where
  result : run.result = run'.result
  notifications : run.notifications = run'.notifications
  counts : run.builder.counts = run'.builder.counts
  stored : run.builder.stored = run'.builder.stored
  phase : run.builder.phase = run'.builder.phase

theorem Alike.agrees {run run' : Run (σ × List Notification) α} (h : run.Alike run') :
    run.Agrees run' := by
  refine ⟨?_, ?_, ?_, ?_, ?_⟩
  · rw [result.eq_def, result.eq_def, h.failure]
  · rw [notifications, notifications, h.builder]
  all_goals rw [h.builder]

/-- A run does not come to notice the interruptions of a source: there are none, or it is over with
the lines before the first. -/
def Unnoticed (run : Run σ α) (reader : LineReader) (keepSource : Bool) (source : Supply) : Prop :=
  source.interrupted = [] ∨ (run.feed (source.stopped.lines.map (reader keepSource))).Over

/-! ## What a listener was told -/

/-- A listener was told as much as at some time before, and more if it has ended the run with a
failure of a file or stream since. -/
structure Told (listener : Listener σ) (count : Nat) (b : Builder (σ × List Notification))
    (failure : Option Error) : Prop where
  listener_eq : b.listener = listener.logged
  count_le : count ≤ b.state.2.length
  count_lt : ∀ e, failure = some (.io e) → count < b.state.2.length

section

variable {listener : Listener σ} {count : Nat} {b : Builder (σ × List Notification)}
  {failure : Option Error}

theorem Told.take (h : Told listener count b failure) (result : LineResult) :
    Told listener count (b.take result).builder (errorOf? (b.take result).result) := by
  cases hended : b.phase.ending? with
  | some ending =>
    rw [Builder.take_of_ended hended]
    refine ⟨h.listener_eq, h.count_le, fun e he => ?_⟩
    exact absurd (Option.some_inj.1 he) (b.closedError_ne_io e)
  | none =>
    obtain ⟨draft, hphase⟩ := Builder.ending?_eq_none_iff.1 hended
    obtain ⟨notification, hlog, -⟩ := Builder.notices_take hphase h.listener_eq result
    obtain ⟨draft', state, last, counts, hb, -⟩ := Builder.exists_of_take hphase result
    have hlonger : count < (b.take result).builder.state.2.length := by
      rw [hlog, List.length_append]
      exact Nat.lt_succ_of_le h.count_le
    refine ⟨?_, Nat.le_of_lt hlonger, fun _ _ => hlonger⟩
    rw [hb]
    exact h.listener_eq

theorem Told.interrupt (h : Told listener count b failure) (disk : Disk) :
    Told listener count (b.interrupt disk).1.builder (errorOf? (b.interrupt disk).1.result) := by
  rw [result_interrupt]
  obtain ⟨provider, storage, listener', ⟨state, log⟩, phase, last, counts⟩ := b
  obtain rfl : listener' = listener.logged := h.listener_eq
  have hle : count ≤ log.length := h.count_le
  cases phase with
  | collecting draft =>
    refine ⟨rfl, ?_, nofun⟩
    show count ≤ (log ++ [Notification.interrupted provider _]).length
    rw [List.length_append]
    exact Nat.le_add_right_of_le hle
  | finished => exact ⟨rfl, hle, nofun⟩
  | interrupted => exact ⟨rfl, hle, nofun⟩

end

/-- **Whoever ends a run with a failure of a file or stream was told something before.** -/
theorem kept_told (listener : Listener σ) (count : Nat) :
    Kept fun (b : Builder (σ × List Notification)) _ failure => Told listener count b failure where
  take h := h.take
  interrupt h := h.interrupt _

/-! ## Both ways -/

section

variable {run : Run σ α} {reader : LineReader} {keepSource : Bool} {source : Supply}

/-- The lines of an interrupted source, with those before the first interruption fed already. -/
theorem exists_ingestLines_eq (run : Run σ α) (reader : LineReader) (keepSource : Bool)
    (hinterrupted : source.interrupted ≠ []) :
    ∃ more, run.ingestLines reader keepSource source =
      ((run.feed (source.stopped.lines.map (reader keepSource))).feed more).close
        source.rest.fault := by
  have hfault : source.stopped.fault.isSome := by
    obtain ⟨⟨bytes, message⟩, more, hsplit⟩ := List.exists_cons_of_ne_nil hinterrupted
    rw [Supply.stopped, hsplit]
    rfl
  obtain ⟨more, hmore⟩ := Stream.lines_prefix hfault source.bytes_stopped_prefix
  refine ⟨more.map (reader keepSource), ?_⟩
  rw [ingestLines, ← hmore, List.map_append, feed_append]
  rfl

/-- **Interruptions that a run does not notice** make no difference to it. -/
theorem Unnoticed.ingestLines_eq (h : run.Unnoticed reader keepSource source) :
    run.ingestLines reader keepSource source.stopped = run.ingestLines reader keepSource source := by
  by_cases hnone : source.interrupted = []
  · rw [Supply.stopped, hnone]
    dsimp only
    rw [ingestLines, ingestLines, Supply.resumed, Supply.resumed, hnone]
  · have hover := h.resolve_left hnone
    obtain ⟨more, hmore⟩ := exists_ingestLines_eq run reader keepSource hnone
    rw [hmore, close_feed_of_over hover, ingestLines_stream]
    exact close_of_over hover _ _

/-- A run that would go on fails at the first interruption, unless it asks again. -/
theorem exists_of_noticed (h : ¬ run.Unnoticed reader keepSource source) :
    ∃ message, run.ingestLines reader keepSource source.stopped =
      { run.feed (source.stopped.lines.map (reader keepSource)) with
        failure := some (.io ⟨.interrupted, message⟩) } := by
  obtain ⟨hnone, hgoes⟩ := not_or.1 h
  obtain ⟨⟨bytes, message⟩, more, hsplit⟩ := List.exists_cons_of_ne_nil hnone
  refine ⟨message, ?_⟩
  rw [ingestLines_stream]
  generalize run.feed (source.stopped.lines.map (reader keepSource)) = fed at hgoes
  obtain ⟨hfailure, hinterrupted⟩ := not_or.1 hgoes
  rw [close, heed_of_not_interrupted (eq_false_of_ne_true hinterrupted),
    Option.not_isSome_iff_eq_none.1 hfailure, Supply.stopped, hsplit]
  rfl

theorem failure_of_result {run : Run σ α} {e : Error} (h : run.result = .error e) :
    run.failure = some e := by
  rw [result] at h
  split at h
  · exact nomatch h
  · rename_i e' he
    rw [he, Except.error.inj h]

/-- Lines by which a run is not over have told its listener what they told it. -/
theorem told_of_not_over {run : Run σ α} {results : List LineResult}
    (hgoes : ¬ (run.watched.feed results).Over) :
    (run.watched.feed results).Has fun b _ failure =>
      Told run.builder.listener (run.watched.feed results).notifications.length b failure := by
  have hstart : run.watched.Has fun b _ failure => Told run.builder.listener 0 b failure := by
    refine ⟨rfl, Nat.zero_le _, fun e he => absurd (Or.inl ?_) hgoes⟩
    rw [feed_of_failure] <;> exact Option.isSome_iff_exists.2 ⟨_, he⟩
  refine ⟨((kept_told _ _).feed hstart results).listener_eq, Nat.le_refl _, fun e he => ?_⟩
  exact absurd (Or.inl (Option.isSome_iff_exists.2 ⟨_, he⟩)) hgoes

/-- **Whoever ends a run as if a read was interrupted was told more by then.** -/
theorem lt_notifications_of_interrupted {listener : Listener σ} {count : Nat}
    {run : Run (σ × List Notification) α} {fault : Option IoError} {message : String}
    (h : run.Has fun b _ failure => Told listener count b failure)
    (hend : ∀ e ∈ fault, e.kind ≠ .interrupted) (results : List LineResult)
    (hfails : ((run.feed results).close fault).failure = some (.io ⟨.interrupted, message⟩)) :
    count < ((run.feed results).close fault).notifications.length := by
  have hfed := (kept_told listener count).heed ((kept_told listener count).feed h results)
  rcases Option.or_eq_some_iff.1 hfails with hended | ⟨-, hfault⟩
  · exact hfed.count_lt _ hended
  · obtain ⟨e, he, hio⟩ := Option.map_eq_some_iff.1 hfault
    obtain rfl : e = ⟨.interrupted, message⟩ := Error.io.inj hio
    exact absurd rfl (hend _ he)

/-- **A run that would go on can be told from one that asks again.** -/
theorem not_agrees_of_noticed {run : Run σ α} {final : Run (σ × List Notification) α}
    (hend : ∀ e ∈ source.rest.fault, e.kind ≠ .interrupted)
    (h : ¬ run.watched.Unnoticed reader keepSource source)
    (hfinal : final.Alike (run.watched.ingestLines reader keepSource source.stopped)) :
    ¬ final.Agrees (run.watched.ingestLines reader keepSource source) := by
  intro hagrees
  obtain ⟨hinterrupted, hgoes⟩ := not_or.1 h
  obtain ⟨message, hstopped⟩ := exists_of_noticed h
  obtain ⟨more, hlines⟩ := exists_ingestLines_eq run.watched reader keepSource hinterrupted
  rw [hstopped] at hfinal
  have hresult : final.result = .error (.io ⟨.interrupted, message⟩) := by
    rw [result.eq_def, hfinal.failure]
  have hfails := failure_of_result (hagrees.result.symm.trans hresult)
  rw [hlines] at hfails
  have hmore := lt_notifications_of_interrupted (told_of_not_over hgoes) hend more hfails
  -- but in batches it was told what it is told of the lines before the interruption
  have hsame : final.notifications =
      (run.watched.feed (source.stopped.lines.map (reader keepSource))).notifications := by
    rw [notifications, hfinal.builder, notifications]
  rw [← hlines, ← hagrees.notifications, hsame] at hmore
  exact Nat.lt_irrefl _ hmore

end

/-- **A run that ingests a source in batches comes to what it comes to line by line exactly if it does
not notice interruptions of the source.**  So it is however the source arrives and in whichever order
its batches do.  The two have the same result then, the listener was told the same, and the builder
has counted and stored the same and is as far.  In any case, a run in batches comes to what line by
line comes of the source up to the first interruption, which fails there. -/
theorem ingest_agrees_iff (run : Run σ α) (reader : LineReader) (settings : Settings) (label : Path)
    (source : Supply) (hend : ∀ e ∈ source.rest.fault, e.kind ≠ .interrupted) :
    run.watched.MayIngest reader settings label source
        (run.watched.ingest reader settings label source) ∧
      ∀ final, run.watched.MayIngest reader settings label source final →
        (final.Agrees (run.watched.ingestLines reader settings.keepSource source) ↔
          run.watched.Unnoticed reader settings.keepSource source) ∧
        (run.watched.Unnoticed reader settings.keepSource source →
          final.Alike (run.watched.ingestLines reader settings.keepSource source)) ∧
        final.Alike (run.watched.ingestLines reader settings.keepSource source.stopped) := by
  refine ⟨mayIngest_ingest _ _ _ _ _, fun final h => ?_⟩
  have hstopped := h.alike
  have hsame : run.watched.Unnoticed reader settings.keepSource source →
      final.Alike (run.watched.ingestLines reader settings.keepSource source) := by
    intro hunnoticed
    rw [← hunnoticed.ingestLines_eq]
    exact hstopped
  refine ⟨⟨fun hagrees => ?_, fun hunnoticed => (hsame hunnoticed).agrees⟩, hsame, hstopped⟩
  by_contra hnoticed
  exact not_agrees_of_noticed hend hnoticed hstopped hagrees

/-- After one address the read is interrupted, and then the source ends.  In batches that is a failure
and line by line it is none, unless the run is to be interrupted anyway. -/
theorem ingest_agrees_iff_interrupted :
    ∃ (run : Run Unit Unit) (source : Supply),
      (∀ e ∈ source.rest.fault, e.kind ≠ .interrupted) ∧
        (∃ message, (run.ingest LineReader.singleAddress {} ⟨"lines"⟩ source).result =
          .error (.io ⟨.interrupted, message⟩)) ∧
        (run.ingestLines LineReader.singleAddress false source).result = .ok () ∧
        ¬ (run.watched.ingest LineReader.singleAddress {} ⟨"lines"⟩ source).Agrees
          (run.watched.ingestLines LineReader.singleAddress false source) ∧
        ({ run with interrupted := true }.watched.ingest LineReader.singleAddress {} ⟨"lines"⟩
          source).Agrees
          ({ run with interrupted := true }.watched.ingestLines LineReader.singleAddress false
            source) := by
  let run : Run Unit Unit :=
    { disk := {}
      builder :=
        { provider := .ip2location, storage := .memory, listener := .failFast, state := ()
          phase := .collecting (.memory {}) } }
  let source : Supply :=
    { interrupted := [("1.2.3.4\n".toUTF8.toList, "interrupted")], rest := ⟨[], none⟩ }
  have hend : ∀ e ∈ source.rest.fault, e.kind ≠ .interrupted := nofun
  have hnoticed : ¬ run.watched.Unnoticed LineReader.singleAddress false source := by
    rintro (hnone | hover)
    · exact List.cons_ne_nil _ _ hnone
    · exact absurd hover (by unfold Over; decide +kernel)
  obtain ⟨hingest, hagrees⟩ :=
    ingest_agrees_iff run LineReader.singleAddress {} ⟨"lines"⟩ source hend
  obtain ⟨hingest', hagrees'⟩ := ingest_agrees_iff { run with interrupted := true }
    LineReader.singleAddress {} ⟨"lines"⟩ source hend
  refine ⟨run, source, hend, ⟨"interrupted", ?_⟩, ?_, fun h => hnoticed ((hagrees _ hingest).1.1 h),
    (hagrees' _ hingest').1.2 ?_⟩
  · decide +kernel
  · decide +kernel
  · exact Or.inr (Or.inr (by decide +kernel))

end Run

end IpAtlas
