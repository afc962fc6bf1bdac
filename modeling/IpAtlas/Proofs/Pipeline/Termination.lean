import IpAtlas.Proofs.Pipeline.Outcome
import IpAtlas.Proofs.Pipeline.Progress
import Mathlib.Algebra.GroupWithZero.Nat

/-!
# Every schedule ends

There is so much work in a pipeline: each party has some steps to its end, and each batch has some
to its insertion, as many as it has lines and a few more.  A step of any party leaves less work, and
an interruption leaves as much.  So no schedule goes on forever, and since some party can always go
on, every schedule can be carried on until every party has ended.

## What is here

* `State.work` — how many steps may still be taken.
* `Step.work_lt` — a step leaves less work.
* `Schedule`, `Schedule.steps_le` — no schedule has more steps than there was work.
* `Reachable.exists_over` — every schedule leads to the end.
-/

set_option autoImplicit false

namespace IpAtlas

namespace Pipeline

variable {σ α : Type} {plan : Plan} {run : Run σ α} {s s' : State σ α} {i : Nat}

/-! ## Work -/

/-- The work on a batch that a worker is to parse. -/
def Plan.load (plan : Plan) (batch : Batch) : Nat := (plan.parse batch).length + 8

/-- The work of a reader, without that on batches it has not read. -/
def Reader.work (plan : Plan) : Reader → Nat
  | waiting => 2
  | permitted => 1
  | holding batch => plan.load batch + 4
  | sending batch => plan.load batch + 3
  | ended _ => 0

/-- The work of a worker, with that on its batch. -/
def Worker.work (plan : Plan) : Worker → Nat
  | idle => 1
  | parsing _ batch => plan.load batch
  | sending _ results => results.length + 7
  | ended => 0

/-- The work of a consumer, with that on the batch it inserts, while so many workers are not
launched. -/
def Stage.work (missing : Nat) : Stage → Nat
  | launching => 7 + 2 * missing
  | parting => 6
  | receiving => 5
  | releasing => 6
  | inserting _ rest => rest.length + 8
  | returning => 7
  | closing => 4
  | leaving => 3
  | departing => 2
  | joining => 1
  | ended => 0

/-- The work that there is. -/
def State.work (plan : Plan) (s : State σ α) : Nat :=
  s.reader.work plan + ((plan.batches.drop s.read).map (plan.load · + 4)).sum +
    (s.batches.map fun e => plan.load e.2).sum + (s.workers.map (Worker.work plan)).sum +
    (s.results.map fun e => e.2.length + 5).sum +
    (s.consumer.waiting.map fun e => e.2.length + 3).sum +
    s.stage.work (plan.crew - s.workers.length)

theorem State.work_interrupt (s : State σ α) : s.interrupt.work plan = s.work plan := rfl

theorem ReaderStep.work_lt (step : ReaderStep plan s s') : s'.work plan < s.work plan := by
  cases step with
  | takePermit stands | runOut stands | reachEnd stands | giveUp stands | goOn stands
  | drop stands =>
    simp only [State.work, stands, Reader.work]
    omega
  | read stands is_next =>
    obtain ⟨hread, rfl⟩ := List.getElem?_eq_some_iff.1 is_next
    simp only [State.work, stands, Reader.work]
    rw [List.drop_eq_getElem_cons hread, List.map_cons, List.sum_cons]
    omega
  | send stands =>
    simp only [State.work, stands, Reader.work, List.map_append, List.sum_append, List.map_cons,
      List.map_nil, List.sum_cons, List.sum_nil]
    omega

/-- A worker that has something else to do changes the work of all workers by that. -/
theorem sum_work_set (plan : Plan) {workers : List Worker} {w : Worker} (h : workers[i]? = some w)
    (w' : Worker) :
    ((workers.set i w').map (Worker.work plan)).sum + w.work plan =
      (workers.map (Worker.work plan)).sum + w'.work plan := by
  obtain ⟨hi, rfl⟩ := List.getElem?_eq_some_iff.1 h
  have hset := ((List.set_perm_cons_eraseIdx hi w').map (Worker.work plan)).sum_nat
  have hget := ((List.getElem_cons_eraseIdx_perm hi).map (Worker.work plan)).sum_nat
  rw [List.map_cons, List.sum_cons] at hset hget
  omega

theorem WorkerStep.work_lt (step : WorkerStep plan i s s') : s'.work plan < s.work plan := by
  cases step with
  | @take number batch batches stands is_first =>
    have hset := sum_work_set plan stands (.parsing number batch)
    simp only [Worker.work] at hset
    simp only [State.work, is_first, List.map_cons, List.sum_cons, List.length_set]
    omega
  | runOut stands =>
    have hset := sum_work_set plan stands .ended
    simp only [Worker.work] at hset
    simp only [State.work, List.length_set]
    omega
  | @parse number batch stands =>
    have hset := sum_work_set plan stands (.sending number (plan.parse batch))
    simp only [Worker.work, Plan.load] at hset
    simp only [State.work, List.length_set]
    omega
  | @send number results stands =>
    have hset := sum_work_set plan stands .idle
    simp only [Worker.work] at hset
    simp only [State.work, List.map_append, List.sum_append, List.map_cons, List.map_nil,
      List.sum_cons, List.sum_nil, List.length_set]
    omega
  | drop stands =>
    have hset := sum_work_set plan stands .ended
    simp only [Worker.work] at hset
    simp only [State.work, List.length_set]
    omega

theorem ConsumerStep.work_lt (step : ConsumerStep plan s s') : s'.work plan < s.work plan := by
  cases step with
  | launch stands is_short =>
    simp only [State.work, stands, Stage.work, List.map_append, List.sum_append, List.map_cons,
      List.map_nil, List.sum_cons, List.sum_nil, List.length_append, List.length_cons,
      List.length_nil, Worker.work]
    omega
  | receive stands is_first =>
    simp only [State.work, stands, is_first, Stage.work, List.map_cons, List.sum_cons]
    omega
  | release stands is_next =>
    have herase := ((perm_cons_eraseP is_next).map fun e : Nat × List LineResult =>
      e.2.length + 3).sum_nat
    simp only [List.map_cons, List.sum_cons] at herase
    simp only [State.work, stands, Stage.work]
    omega
  | leaveBatches stands | leaveResults stands | runOut stands | settle stands | insert stands
  | fail stands | complete stands | handBack stands | keep stands | close stands
  | dropPermits stands | dropResults stands | join stands =>
    simp only [State.work, stands, Stage.work, List.length_cons]
    omega

/-- **A step of any party leaves less work.** -/
theorem Step.work_lt (step : Step plan s s') : s'.work plan < s.work plan := by
  cases step with
  | reader step => exact step.work_lt
  | worker i step => exact step.work_lt
  | consumer step => exact step.work_lt

/-! ## Schedules -/

/-- What so many steps lead to, with interruptions anywhere between them. -/
inductive Schedule (plan : Plan) : State σ α → Nat → State σ α → Prop
  | refl {s : State σ α} : Schedule plan s 0 s
  | step {n : Nat} {s s' s'' : State σ α} (step : Step plan s s') (rest : Schedule plan s' n s'') :
      Schedule plan s (n + 1) s''
  | interrupt {n : Nat} {s s' : State σ α} (rest : Schedule plan s.interrupt n s') :
      Schedule plan s n s'

/-- **A schedule has no more steps than there was work**, however often it is interrupted. -/
theorem Schedule.steps_le {n : Nat} (h : Schedule plan s n s') :
    n + s'.work plan ≤ s.work plan := by
  induction h with
  | refl => exact Nat.le_of_eq (Nat.zero_add _)
  | step step _ ih =>
    have hlt := step.work_lt
    omega
  | interrupt _ ih => exact ih

theorem Schedule.reachable {n : Nat} (h : Schedule plan s n s') (hs : Reachable plan run s) :
    Reachable plan run s' := by
  induction h with
  | refl => exact hs
  | step step _ ih => exact ih (hs.step step)
  | interrupt _ ih => exact ih hs.interrupt

theorem Step.disturbed_eq (step : Step plan s s') : s'.disturbed = s.disturbed := by
  cases step with
  | reader step => cases step <;> rfl
  | worker i step => cases step <;> rfl
  | consumer step => cases step <;> rfl

/-- **Every schedule can be carried on until every party has ended**, without an interruption. -/
theorem Reachable.exists_over (h : Reachable plan run s) :
    ∃ n s', Schedule plan s n s' ∧ s'.Over ∧ s'.disturbed = s.disturbed := by
  -- on the work that is left: some party goes on and leaves less
  induction hwork : s.work plan using Nat.strongRecOn generalizing s with
  | ind work ih =>
    by_cases hstuck : s.Stuck plan
    · exact ⟨0, s, .refl, h.over_of_stuck hstuck, rfl⟩
    · obtain ⟨next, step⟩ : ∃ next, Step plan s next := by simpa [State.Stuck] using hstuck
      have hless : next.work plan < work := by
        rw [← hwork]
        exact step.work_lt
      obtain ⟨n, s', hschedule, hover, hquiet⟩ := ih _ hless (h.step step) rfl
      exact ⟨n + 1, s', .step step hschedule, hover, hquiet.trans step.disturbed_eq⟩

/-- **An undisturbed pipeline comes to what the run makes of one batch after the other**, whatever
its parties have done so far and in whichever way they carry on. -/
theorem Reachable.comes_to (h : Reachable plan run s) (hquiet : s.disturbed = false) :
    (∃ n s', Schedule plan s n s' ∧ s'.Over ∧ s'.outcome plan = plan.ingest run) ∧
      ∀ n s', Schedule plan s n s' → s'.Over → s'.disturbed = false →
        n ≤ s.work plan ∧ s'.outcome plan = plan.ingest run := by
  refine ⟨?_, fun n s' hschedule hover hstill => ?_⟩
  · obtain ⟨n, s', hschedule, hover, hsame⟩ := h.exists_over
    exact ⟨n, s', hschedule, hover,
      (hschedule.reachable h).outcome_eq hover (hsame.trans hquiet)⟩
  · have hsteps := hschedule.steps_le
    exact ⟨by omega, (hschedule.reachable h).outcome_eq hover hstill⟩

end Pipeline

end IpAtlas
