import IpAtlas.Proofs.Pipeline.Invariants
import Mathlib.Data.List.Perm.Basic

/-!
# Where batches are

A batch that has been read goes from hand to hand until it is inserted: from the reader into a
queue, from there to a worker, into the other queue, to the other batches that wait for their turn,
and at last into the run.  A step hands on one batch at most, and loses none unless the reader gives
up, a worker has nobody to send to, or the consumer fails.  As long as nobody has a reason for any
of this, every batch that has been read is at one place.

## What is here

* `State.everywhere` — the batches that are anywhere, inserted or not.
* `ReaderStep.moves`, `WorkerStep.moves`, `ConsumerStep.moves` — what a step does to them.
* `State.Intact`, `Reachable.accounted` — batches that are neither lost nor doubled.
* `Lawful.read_le_next` — where the next batch is if nobody has it.
-/

set_option autoImplicit false

namespace IpAtlas

namespace Pipeline

variable {σ α : Type} {plan : Plan} {run : Run σ α} {s s' : State σ α} {i : Nat}

/-! ## From hand to hand -/

/-- The batches that are anywhere: inserted, about to be, or on their way. -/
def State.everywhere (s : State σ α) : List Nat := s.inserted ++ s.stage.hand ++ s.places

theorem State.count_everywhere (s : State σ α) (n : Nat) :
    s.everywhere.count n =
      s.inserted.count n + s.stage.hand.count n + (s.reader.hand s.sequence).count n +
        (s.batches.map Prod.fst).count n + (s.workers.flatMap Worker.hand).count n +
          (s.results.map Prod.fst).count n + (s.consumer.waiting.map Prod.fst).count n := by
  simp only [State.everywhere, State.places, List.count_append]
  omega

/-- A worker that has something else in its hand changes what all workers have by that. -/
theorem count_hands_set {workers : List Worker} {w : Worker} (h : workers[i]? = some w)
    (w' : Worker) (n : Nat) :
    ((workers.set i w').flatMap Worker.hand).count n + w.hand.count n =
      (workers.flatMap Worker.hand).count n + w'.hand.count n := by
  obtain ⟨hi, rfl⟩ := List.getElem?_eq_some_iff.1 h
  have hset := ((List.set_perm_cons_eraseIdx hi w').flatMap_right Worker.hand).count_eq n
  have hget := ((List.getElem_cons_eraseIdx_perm hi).flatMap_right Worker.hand).count_eq n
  rw [List.flatMap_cons, List.count_append] at hset hget
  omega

/-- What is found is what is erased. -/
theorem perm_cons_eraseP {β : Type} {p : β → Bool} {xs : List β} {x : β}
    (h : xs.find? p = some x) : xs.Perm (x :: xs.eraseP p) := by
  obtain ⟨hx, front, rest, rfl, hfront⟩ := List.find?_eq_some_iff_append.1 h
  have hnot : ∀ y ∈ front, ¬p y = true := by simpa using hfront
  rw [List.eraseP_append_right _ hnot, List.eraseP_cons_of_pos hx]
  exact List.perm_middle

/-- The reader hands a batch on or reads one, unless it goes for a reason. -/
theorem ReaderStep.moves (step : ReaderStep plan s s') :
    (s'.read = s.read ∧ s'.everywhere.Perm s.everywhere) ∨
      (s'.read = s.read + 1 ∧ s.reader = .permitted ∧
        s'.everywhere.Perm (s.everywhere ++ [s.sequence])) ∨
      (s'.reader.isEnded = true ∧ (s.run.interrupted = true ∨ s.Untaken)) := by
  cases step with
  | takePermit stands | runOut stands | reachEnd stands | goOn stands =>
    refine Or.inl ⟨rfl, List.perm_iff_count.2 fun n => ?_⟩
    simp only [State.count_everywhere, stands, Reader.hand]
  | send stands =>
    refine Or.inl ⟨rfl, List.perm_iff_count.2 fun n => ?_⟩
    simp only [State.count_everywhere, stands, Reader.hand, List.map_append, List.count_append,
      List.map_cons, List.map_nil, List.count_nil]
    omega
  | read stands =>
    refine Or.inr (Or.inl ⟨rfl, stands, List.perm_iff_count.2 fun n => ?_⟩)
    simp only [List.count_append, State.count_everywhere, stands, Reader.hand, List.count_nil]
    omega
  | giveUp stands interrupted => exact Or.inr (Or.inr ⟨rfl, Or.inl interrupted⟩)
  | drop stands untaken => exact Or.inr (Or.inr ⟨rfl, Or.inr untaken⟩)

/-- A worker hands a batch on, unless nobody takes its results. -/
theorem WorkerStep.moves (step : WorkerStep plan i s s') :
    s'.everywhere.Perm s.everywhere ∨ s.stage.takesResults = false := by
  cases step with
  | @take number batch batches stands is_first =>
    refine Or.inl (List.perm_iff_count.2 fun n => ?_)
    have hset := count_hands_set stands (.parsing number batch) n
    simp only [Worker.hand, List.count_nil] at hset
    simp only [State.count_everywhere, is_first, List.map_cons]
    rw [List.count_cons, ← List.count_singleton]
    omega
  | runOut stands =>
    refine Or.inl (List.perm_iff_count.2 fun n => ?_)
    have hset := count_hands_set stands .ended n
    simp only [Worker.hand] at hset
    simp only [State.count_everywhere]
    omega
  | @parse number batch stands =>
    refine Or.inl (List.perm_iff_count.2 fun n => ?_)
    have hset := count_hands_set stands (.sending number (plan.parse batch)) n
    simp only [Worker.hand] at hset
    simp only [State.count_everywhere]
    omega
  | @send number results stands =>
    refine Or.inl (List.perm_iff_count.2 fun n => ?_)
    have hset := count_hands_set stands .idle n
    simp only [Worker.hand, List.count_nil] at hset
    simp only [State.count_everywhere, List.map_append, List.count_append, List.map_cons,
      List.map_nil]
    omega
  | drop stands untaken => exact Or.inr untaken

/-- The consumer hands a batch on, unless it fails. -/
theorem ConsumerStep.moves (step : ConsumerStep plan s s') :
    s'.everywhere.Perm s.everywhere ∨ (s'.run.failure.isSome ∧ s'.stage.isAtWork = false) := by
  cases step with
  | fail stands fails => exact Or.inr ⟨fails, rfl⟩
  | receive stands is_first =>
    refine Or.inl (List.perm_iff_count.2 fun n => ?_)
    simp only [State.count_everywhere, stands, is_first, Stage.hand, List.map_cons,
      List.count_cons]
    omega
  | @release number results stands is_next =>
    refine Or.inl (List.perm_iff_count.2 fun n => ?_)
    have herase := ((perm_cons_eraseP is_next).map Prod.fst).count_eq n
    simp only [List.map_cons, List.count_cons] at herase
    rw [← List.count_singleton] at herase
    simp only [State.count_everywhere, stands, Stage.hand, List.count_nil]
    omega
  | complete stands =>
    refine Or.inl (List.perm_iff_count.2 fun n => ?_)
    simp only [State.count_everywhere, stands, Stage.hand, List.count_append, List.count_nil]
    omega
  | launch stands =>
    refine Or.inl (List.perm_iff_count.2 fun n => ?_)
    simp [State.count_everywhere, Worker.hand]
  | leaveBatches stands | leaveResults stands | runOut stands | settle stands | insert stands
  | handBack stands | keep stands | close stands | dropPermits stands | dropResults stands
  | join stands =>
    refine Or.inl (List.perm_iff_count.2 fun n => ?_)
    simp only [State.count_everywhere, stands, Stage.hand]

/-! ## Nothing is lost -/

/-- Nobody has had a reason to drop a batch: no interruption is wanted and the consumer has not
failed, or at least the reader is still there and the consumer at work. -/
def State.Intact (s : State σ α) : Prop :=
  (s.run.interrupted = false ∧ s.run.failure = none) ∨
    (s.reader.isEnded = false ∧ s.stage.isAtWork = true)

theorem ConsumerStep.undisturbed (step : ConsumerStep plan s s')
    (h : s'.run.interrupted = false ∧ s'.run.failure = none) :
    s.run.interrupted = false ∧ s.run.failure = none := by
  cases step with
  | insert stands succeeds => exact Run.undisturbed_of_step succeeds
  | fail stands fails => exact Run.undisturbed_of_step h.2
  | close stands => exact Run.undisturbed_of_heed h.2
  | _ => exact h

theorem ConsumerStep.atWork (step : ConsumerStep plan s s') (h : s'.stage.isAtWork = true) :
    s.stage.isAtWork = true := by
  cases step with
  | launch stands => exact h
  | dropPermits stands | dropResults stands | join stands | fail stands | close stands =>
    exact nomatch h
  | leaveBatches stands | leaveResults stands | receive stands | runOut stands | release stands
  | settle stands | insert stands | complete stands | handBack stands | keep stands =>
    rw [stands]
    rfl

theorem ConsumerStep.reader_eq (step : ConsumerStep plan s s') : s'.reader = s.reader := by
  cases step <;> rfl

/-- A reason that there once was does not go away. -/
theorem State.Intact.of_step (h : s'.Intact) (step : Step plan s s') : s.Intact := by
  cases step with
  | reader step =>
    have hthere := step.isEnded
    exact h.imp (fun h => by cases step <;> exact h) fun h => ⟨hthere, by cases step <;> exact h.2⟩
  | worker i step => cases step <;> exact h
  | consumer step =>
    refine h.imp step.undisturbed fun h => ⟨?_, step.atWork h.2⟩
    rw [← step.reader_eq]
    exact h.1

theorem Stage.isOver_of_takesResults {stage : Stage} (h : stage.takesResults = false) :
    stage.isOver = true ∧ stage.isAtWork = false := by
  cases stage <;> first | exact ⟨rfl, rfl⟩ | exact nomatch h

/-- If nobody takes batches any more, though nothing has failed, the reader is gone. -/
theorem Lawful.gone_of_untaken (h : Lawful plan s) (hfailure : s.run.failure = none)
    (huntaken : s.Untaken) : s.reader.isEnded = true := by
  cases htakes : s.stage.takesResults with
  | true => exact (h.attended (h.crewed.exists_ended huntaken) htakes).1
  | false => exact (h.drained (Stage.isOver_of_takesResults htakes).1 hfailure).1

/-- Every batch that has been read is at one place, if there was no reason to drop any. -/
def Accounted (s : State σ α) : Prop := s.Intact → s.everywhere.Perm (List.range s.read)

theorem Accounted.of_start : Accounted (.start plan run) := fun _ => .refl _

theorem Accounted.reader (h : Accounted s) (hlawful : Lawful plan s)
    (step : ReaderStep plan s s') : Accounted s' := by
  intro hintact
  have hbefore : s.Intact := hintact.of_step (.reader step)
  have hthere := step.isEnded
  rcases step.moves with ⟨hread, hmoves⟩ | ⟨hread, hstands, hmoves⟩ | ⟨hended, hreason⟩
  · rw [hread]
    exact hmoves.trans (h hbefore)
  · have hsequence := hlawful.numbered hthere
    rw [hstands] at hsequence
    have hnumber : s.sequence = s.read := hsequence
    rw [hnumber] at hmoves
    rw [hread, List.range_succ]
    exact hmoves.trans ((h hbefore).append_right _)
  · exfalso
    have hrun : s'.run = s.run := by cases step <;> rfl
    rcases hintact with ⟨hunset, hfailure⟩ | ⟨hnot, -⟩
    · rw [hrun] at hunset hfailure
      rcases hreason with hinterrupted | huntaken
      · rw [hunset] at hinterrupted
        exact nomatch hinterrupted
      · exact absurd (hlawful.gone_of_untaken hfailure huntaken) step.not_ended
    · rw [hended] at hnot
      exact nomatch hnot

theorem Accounted.worker (h : Accounted s) (hlawful : Lawful plan s)
    (step : WorkerStep plan i s s') : Accounted s' := by
  intro hintact
  have hbefore : s.Intact := hintact.of_step (.worker i step)
  have hread : s'.read = s.read := by cases step <;> rfl
  rcases step.moves with hmoves | huntaken
  · rw [hread]
    exact hmoves.trans (h hbefore)
  · exfalso
    obtain ⟨hover, hwork⟩ := Stage.isOver_of_takesResults huntaken
    rcases hbefore with ⟨-, hfailure⟩ | ⟨-, hatWork⟩
    · exact step.not_idle (hlawful.drained hover hfailure).2.1
    · rw [hwork] at hatWork
      exact nomatch hatWork

theorem Accounted.consumer (h : Accounted s) (step : ConsumerStep plan s s') : Accounted s' := by
  intro hintact
  have hbefore : s.Intact := hintact.of_step (.consumer step)
  have hread : s'.read = s.read := by cases step <;> rfl
  rcases step.moves with hmoves | ⟨hfailure, hwork⟩
  · rw [hread]
    exact hmoves.trans (h hbefore)
  · exfalso
    rcases hintact with ⟨-, hnone⟩ | ⟨-, hatWork⟩
    · rw [hnone] at hfailure
      exact nomatch hfailure
    · rw [hwork] at hatWork
      exact nomatch hatWork

theorem Accounted.interrupt (h : Accounted s) : Accounted s.interrupt := fun hintact =>
  h (hintact.imp_left fun hrun => nomatch hrun.1)

/-- **Under every schedule a batch that has been read is at one place**, unless there was a reason
to drop one. -/
theorem Reachable.accounted (h : Reachable plan run s) : Accounted s := by
  induction h with
  | start => exact .of_start
  | step reached step ih =>
    cases step with
    | reader step => exact ih.reader reached.lawful step
    | worker i step => exact ih.worker reached.lawful step
    | consumer step => exact ih.consumer step
  | interrupt _ ih => exact ih.interrupt

/-! ## The next batch -/

theorem Stage.hand_of_isSettled {stage : Stage} (h : stage.isSettled = true) :
    stage.isAtWork = true ∧ stage.hand = [] := by
  cases stage <;> first | exact ⟨rfl, rfl⟩ | exact nomatch h

/-- If the consumer has looked for the next batch and nobody else has anything, every batch that has
been read is inserted: the next one would have to wait for its turn, and would not be the next. -/
theorem Lawful.read_le_next (h : Lawful plan s) (haccounted : Accounted s) (hintact : s.Intact)
    (hsettled : s.stage.isSettled = true) (hreader : s.reader.hand s.sequence = [])
    (hbatches : s.batches = []) (hworkers : ∀ w ∈ s.workers, w.hand = [])
    (hresults : s.results = []) : s.read ≤ s.consumer.next := by
  obtain ⟨hwork, hhand⟩ := Stage.hand_of_isSettled hsettled
  have hinserted : s.inserted = List.range s.consumer.next := by
    have hnext := h.ordered.next hwork
    rwa [hhand, List.append_nil] at hnext
  have hperm : (s.inserted ++ s.consumer.waiting.map Prod.fst).Perm (List.range s.read) := by
    have hperm := haccounted hintact
    rw [State.everywhere, State.places, hhand, hreader, hbatches, hresults,
      List.flatMap_eq_nil_iff.2 hworkers] at hperm
    simpa using hperm
  by_contra hlt
  have hread : s.consumer.next ∈ List.range s.read := List.mem_range.2 (Nat.lt_of_not_le hlt)
  rcases List.mem_append.1 (hperm.mem_iff.2 hread) with hmem | hmem
  · rw [hinserted, List.mem_range] at hmem
    exact Nat.lt_irrefl _ hmem
  · obtain ⟨w, hw, hnext⟩ := List.mem_map.1 hmem
    exact h.ordered.not_next hsettled w hw hnext

end Pipeline

end IpAtlas
