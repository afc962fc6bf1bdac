import IpAtlas.Proofs.Pipeline
import IpAtlas.Proofs.Ingest

/-!
# What every schedule keeps

The parties of a pipeline keep to some rules whichever of them comes next.  Permits are neither made
nor lost while the reader is there, so reading runs ahead of inserting by as many batches as there
are permits.  Batches are numbered as they are read and inserted in the order of their numbers.  And
nobody leaves too early: a worker goes only when the reader is gone and there is no batch left, or
when the consumer takes nothing any more, and the consumer that does not fail goes only after all of
them.

## What is here

* `Crewed`, `Metered`, `Numbered`, `Ordered` — the workers, the permits and the numbers.
* `Attended`, `Drained`, `Joined` — who leaves when.
* `Lawful`, `Reachable.lawful` — all of that, in every state that a pipeline may come to.
-/

set_option autoImplicit false

namespace IpAtlas

namespace Pipeline

variable {σ α : Type} {plan : Plan} {run : Run σ α} {s s' : State σ α} {i : Nat}

theorem Plan.crew_pos (plan : Plan) : 0 < plan.crew := Nat.le_max_right _ _

theorem Plan.limit_pos (plan : Plan) : 0 < plan.limit :=
  Nat.mul_pos (Nat.le_max_right _ _) (by decide)

/-! ## Whoever acts is there -/

theorem ReaderStep.isEnded (step : ReaderStep plan s s') : s.reader.isEnded = false := by
  cases step with
  | takePermit stands | runOut stands | read stands | reachEnd stands | giveUp stands
  | goOn stands | send stands | drop stands => rw [stands]; rfl

theorem ReaderStep.not_ended (step : ReaderStep plan s s') : ¬s.reader.isEnded = true := by
  rw [step.isEnded]
  exact Bool.false_ne_true

theorem WorkerStep.not_idle (step : WorkerStep plan i s s') : ¬s.Idle := by
  intro hidle
  cases step with
  | take stands | runOut stands | parse stands | send stands | drop stands =>
    have hended := hidle _ (List.mem_of_getElem? stands)
    exact nomatch hended

/-- A worker that has ended after a step, and was not told to, had ended before. -/
theorem mem_of_mem_set {workers : List Worker} {w : Worker} (h : .ended ∈ workers.set i w)
    (hw : w ≠ .ended) : .ended ∈ workers :=
  (List.mem_or_eq_of_mem_set h).resolve_right (Ne.symm hw)

/-! ## Workers -/

/-- Workers are launched one by one, and all of them before anything is consumed. -/
structure Crewed (plan : Plan) (s : State σ α) : Prop where
  le : s.workers.length ≤ plan.crew
  full : s.stage.takesBatches = false → s.workers.length = plan.crew

theorem Crewed.of_start : Crewed plan (.start plan run) := ⟨Nat.zero_le _, nofun⟩

theorem Crewed.step (h : Crewed plan s) (step : Step plan s s') : Crewed plan s' := by
  obtain ⟨le, full⟩ := h
  cases step with
  | reader step => cases step <;> exact ⟨le, full⟩
  | worker i step =>
    cases step <;> exact ⟨by rw [List.length_set]; exact le, by rw [List.length_set]; exact full⟩
  | consumer step =>
    cases step with
    | launch stands is_short =>
      refine ⟨?_, fun htakes => ?_⟩
      · rw [List.length_append]
        exact is_short
      · have hlaunching : s.stage.takesBatches = false := htakes
        rw [stands] at hlaunching
        exact nomatch hlaunching
    | leaveBatches stands is_full => exact ⟨le, fun _ => Nat.le_antisymm le is_full⟩
    | leaveResults stands | receive stands | runOut stands | release stands | settle stands
    | insert stands | fail stands | complete stands | handBack stands | keep stands | close stands
    | dropPermits stands | dropResults stands | join stands =>
      rw [stands] at full
      exact ⟨le, full⟩

/-- If nobody takes batches any more, some worker has ended. -/
theorem Crewed.exists_ended (h : Crewed plan s) (huntaken : s.Untaken) : .ended ∈ s.workers := by
  have hlength := h.full huntaken.1
  have hpos := plan.crew_pos
  obtain ⟨w, hw⟩ := List.exists_mem_of_length_pos (l := s.workers) (by omega)
  rw [← huntaken.2 w hw]
  exact hw

/-! ## Permits -/

/-- A permit is there to be taken, with the reader that is to read, with a batch that is read and
not inserted, or with the consumer that is to hand it back. -/
structure Metered (plan : Plan) (s : State σ α) : Prop where
  all_there : s.reader.isEnded = false →
    s.permits + s.reader.permits + s.read + s.stage.permits = plan.limit + s.inserted.length
  read_le : s.read ≤ s.inserted.length + plan.limit

theorem Metered.of_start : Metered plan (.start plan run) := ⟨fun _ => rfl, Nat.zero_le _⟩

theorem Metered.step (h : Metered plan s) (step : Step plan s s') : Metered plan s' := by
  obtain ⟨all_there, read_le⟩ := h
  cases step with
  | reader step =>
    have hall := all_there step.isEnded
    cases step with
    | takePermit stands some_left =>
      rw [stands] at hall
      simp only [Reader.permits] at hall
      refine ⟨fun _ => ?_, read_le⟩
      simp only [Reader.permits]
      omega
    | read stands =>
      rw [stands] at hall
      simp only [Reader.permits] at hall
      refine ⟨fun _ => ?_, ?_⟩ <;> simp only [Reader.permits] <;> omega
    | goOn stands | send stands =>
      rw [stands] at hall
      exact ⟨fun _ => hall, read_le⟩
    | runOut stands | reachEnd stands | giveUp stands | drop stands => exact ⟨nofun, read_le⟩
  | worker i step => cases step <;> exact ⟨all_there, read_le⟩
  | consumer step =>
    cases step with
    | complete stands =>
      rw [stands] at all_there
      simp only [Stage.permits] at all_there
      refine ⟨fun hthere => ?_, ?_⟩ <;> simp only [Stage.permits, List.length_append,
        List.length_singleton]
      · have hall := all_there hthere
        omega
      · omega
    | handBack stands wanted =>
      rw [stands] at all_there
      have hall := all_there wanted
      simp only [Stage.permits] at hall
      refine ⟨fun _ => ?_, read_le⟩
      simp only [Stage.permits]
      omega
    | keep stands unwanted =>
      refine ⟨fun hthere => ?_, read_le⟩
      rw [unwanted] at hthere
      exact nomatch hthere
    | launch stands => exact ⟨all_there, read_le⟩
    | leaveBatches stands | leaveResults stands | receive stands | runOut stands | release stands
    | settle stands | insert stands | fail stands | close stands | dropPermits stands
    | dropResults stands | join stands =>
      rw [stands] at all_there
      exact ⟨all_there, read_le⟩

/-! ## Numbers -/

/-- The next batch gets as its number how many were read before it. -/
def Numbered (s : State σ α) : Prop :=
  s.reader.isEnded = false → s.sequence + (s.reader.hand s.sequence).length = s.read

theorem Numbered.of_start : Numbered (.start plan run) := fun _ => rfl

theorem Numbered.step (h : Numbered s) (step : Step plan s s') : Numbered s' := by
  cases step with
  | reader step =>
    have hnumber := h step.isEnded
    cases step with
    | takePermit stands | goOn stands =>
      rw [stands] at hnumber
      exact fun _ => hnumber
    | read stands =>
      rw [stands] at hnumber
      exact fun _ => congrArg (· + 1) hnumber
    | send stands =>
      rw [stands] at hnumber
      exact fun _ => hnumber
    | runOut stands | reachEnd stands | giveUp stands | drop stands => exact nofun
  | worker i step => cases step <;> exact h
  | consumer step => cases step <;> exact h

/-- Batches are inserted in the order of their numbers, up to the one whose turn it is; a batch that
waits when the consumer has looked for the next one is not the next. -/
structure Ordered (s : State σ α) : Prop where
  inserted : s.inserted = List.range s.inserted.length
  next : s.stage.isAtWork = true →
    s.inserted ++ s.stage.hand = List.range s.consumer.next
  not_next : s.stage.isSettled = true → ∀ w ∈ s.consumer.waiting, w.1 ≠ s.consumer.next

theorem Ordered.of_start : Ordered (.start plan run) := ⟨rfl, fun _ => rfl, nofun⟩

theorem Ordered.step (h : Ordered s) (step : Step plan s s') : Ordered s' := by
  obtain ⟨inserted, next, not_next⟩ := h
  cases step with
  | reader step => cases step <;> exact ⟨inserted, next, not_next⟩
  | worker i step => cases step <;> exact ⟨inserted, next, not_next⟩
  | consumer step =>
    cases step with
    | @release number results stands is_next =>
      have hnumber : number = s.consumer.next := by simpa using List.find?_some is_next
      rw [stands] at next
      refine ⟨inserted, fun _ => ?_, nofun⟩
      show s.inserted ++ [number] = List.range (s.consumer.next + 1)
      rw [List.range_succ, ← next rfl, hnumber]
      simp [Stage.hand]
    | settle stands none_next =>
      rw [stands] at next
      refine ⟨inserted, next, fun _ w hw => ?_⟩
      simpa using List.find?_eq_none.1 none_next w hw
    | @complete number stands =>
      rw [stands] at next
      have hnext : s.inserted ++ [number] = List.range s.consumer.next := next rfl
      refine ⟨?_, fun _ => ?_, nofun⟩
      · show s.inserted ++ [number] = List.range (s.inserted ++ [number]).length
        rw [hnext, List.length_range]
      · show s.inserted ++ [number] ++ [] = List.range s.consumer.next
        rw [List.append_nil, hnext]
    | launch stands => exact ⟨inserted, next, not_next⟩
    | leaveBatches stands | leaveResults stands | runOut stands =>
      rw [stands] at next not_next
      exact ⟨inserted, next, not_next⟩
    | receive stands | insert stands | handBack stands | keep stands =>
      rw [stands] at next
      exact ⟨inserted, next, nofun⟩
    | fail stands | close stands | dropPermits stands | dropResults stands | join stands =>
      exact ⟨inserted, nofun, nofun⟩

/-! ## Who leaves when -/

/-- A worker that has ended, while the consumer takes results, has left nothing to do. -/
def Attended (s : State σ α) : Prop :=
  .ended ∈ s.workers → s.stage.takesResults = true → s.reader.isEnded = true ∧ s.batches = []

theorem Attended.of_start : Attended (.start plan run) := nofun

theorem Attended.step (h : Attended s) (step : Step plan s s') : Attended s' := by
  intro hended htakes
  cases step with
  | reader step =>
    have hgone : s.reader.isEnded = true := by cases step <;> exact (h hended htakes).1
    exact absurd hgone step.not_ended
  | worker i step =>
    cases step with
    | take stands is_first =>
      have hnone := (h (mem_of_mem_set hended nofun) htakes).2
      rw [is_first] at hnone
      exact nomatch hnone
    | runOut stands none_left unsent => exact ⟨unsent, none_left⟩
    | parse stands => exact h (mem_of_mem_set hended nofun) htakes
    | send stands => exact h (mem_of_mem_set hended nofun) htakes
    | drop stands untaken =>
      rw [untaken] at htakes
      exact nomatch htakes
  | consumer step =>
    cases step with
    | launch stands =>
      refine h ?_ htakes
      exact (List.mem_append.1 hended).resolve_right (by simp)
    | dropResults stands | join stands => exact nomatch htakes
    | leaveBatches stands | leaveResults stands | receive stands | runOut stands | release stands
    | settle stands | insert stands | fail stands | complete stands | handBack stands
    | keep stands | close stands | dropPermits stands => exact h hended (by rw [stands]; rfl)

/-- A consumer that has not failed does not stop before all results are in. -/
def Drained (s : State σ α) : Prop :=
  s.stage.isOver = true → s.run.failure = none →
    s.reader.isEnded = true ∧ s.Idle ∧ s.batches = [] ∧ s.results = []

theorem Drained.of_start : Drained (.start plan run) := nofun

theorem Drained.step (h : Drained s) (hcrew : Crewed plan s) (hattended : Attended s)
    (step : Step plan s s') : Drained s' := by
  intro hover hfailure
  cases step with
  | reader step =>
    have hgone : s.reader.isEnded = true := by cases step <;> exact (h hover hfailure).1
    exact absurd hgone step.not_ended
  | worker i step =>
    have hidle : s.Idle := by cases step <;> exact (h hover hfailure).2.1
    exact absurd hidle step.not_idle
  | consumer step =>
    cases step with
    | runOut stands none_left unsent =>
      have huntaken : s.Untaken := ⟨by rw [stands]; rfl, unsent.2⟩
      obtain ⟨hgone, hnone⟩ := hattended (hcrew.exists_ended huntaken) (by rw [stands]; rfl)
      exact ⟨hgone, unsent.2, hnone, none_left⟩
    | fail stands fails =>
      have hnone : (s.run.step _).failure = none := hfailure
      rw [hnone] at fails
      exact nomatch fails
    | close stands =>
      have hnone : s.run.failure = none := (Run.undisturbed_of_heed hfailure).2
      exact h (by rw [stands]; rfl) hnone
    | launch stands =>
      rw [stands] at hover
      exact nomatch hover
    | dropPermits stands | dropResults stands | join stands =>
      exact h (by rw [stands]; rfl) hfailure
    | leaveBatches stands | leaveResults stands | receive stands | release stands | settle stands
    | insert stands | complete stands | handBack stands | keep stands => exact nomatch hover

/-- The consumer ends last. -/
def Joined (s : State σ α) : Prop := s.stage = .ended → s.Over

theorem Joined.of_start : Joined (.start plan run) := nofun

theorem Joined.step (h : Joined s) (step : Step plan s s') : Joined s' := by
  intro hended
  cases step with
  | reader step =>
    have hgone : s.reader.isEnded = true := by cases step <;> exact (h hended).reader
    exact absurd hgone step.not_ended
  | worker i step =>
    have hidle : s.Idle := by cases step <;> exact (h hended).workers
    exact absurd hidle step.not_idle
  | consumer step =>
    cases step with
    | join stands reader_ended workers_ended => exact ⟨reader_ended, workers_ended, rfl⟩
    | launch stands =>
      have hlaunching : s.stage = .ended := hended
      rw [stands] at hlaunching
      exact nomatch hlaunching
    | _ => exact nomatch hended

/-! ## All of it -/

/-- A pipeline whose parties have kept to the rules. -/
structure Lawful (plan : Plan) (s : State σ α) : Prop where
  crewed : Crewed plan s
  metered : Metered plan s
  numbered : Numbered s
  ordered : Ordered s
  attended : Attended s
  drained : Drained s
  joined : Joined s

theorem Lawful.of_start : Lawful plan (.start plan run) :=
  ⟨.of_start, .of_start, .of_start, .of_start, .of_start, .of_start, .of_start⟩

theorem Lawful.step (h : Lawful plan s) (step : Step plan s s') : Lawful plan s' where
  crewed := h.crewed.step step
  metered := h.metered.step step
  numbered := h.numbered.step step
  ordered := h.ordered.step step
  attended := h.attended.step step
  drained := h.drained.step h.crewed h.attended step
  joined := h.joined.step step

/-- None of the rules is about interruptions. -/
theorem Lawful.interrupt (h : Lawful plan s) : Lawful plan s.interrupt where
  crewed := ⟨h.crewed.le, h.crewed.full⟩
  metered := ⟨h.metered.all_there, h.metered.read_le⟩
  numbered := h.numbered
  ordered := ⟨h.ordered.inserted, h.ordered.next, h.ordered.not_next⟩
  attended := h.attended
  drained := h.drained
  joined := fun hended => ⟨(h.joined hended).reader, (h.joined hended).workers, hended⟩

/-- **The parties keep to the rules under every schedule.** -/
theorem Reachable.lawful (h : Reachable plan run s) : Lawful plan s := by
  induction h with
  | start => exact .of_start
  | step _ step ih => exact ih.step step
  | interrupt _ ih => exact ih.interrupt

end Pipeline

end IpAtlas
