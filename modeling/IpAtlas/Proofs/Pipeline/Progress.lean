import IpAtlas.Proofs.Pipeline.Places

/-!
# Some party goes on

A pipeline does not come to a halt before every party has ended.  Each party waits for something
only where it says so: the reader for a permit or for room among the batches, a worker for a batch
or for room among the results, the consumer for results or for the others to end.  Were all of them
to wait, the reader would be out of permits while both queues and all hands are empty.  Then every
batch that is read and not inserted waits for its turn with the consumer, the next one among them,
and the consumer would have taken it.

## What is here

* `State.Stuck` — nobody can do anything.
* `State.Stuck.reader`, `State.Stuck.worker`, `Lawful.stuck_consumer` — what a party waits for.
* `Reachable.over_of_stuck` — where nobody can do anything, every party has ended.
* `Safe`, `safe_of_reachable` — what holds of a pipeline under every schedule.
-/

set_option autoImplicit false

namespace IpAtlas

namespace Pipeline

variable {σ α : Type} {plan : Plan} {run : Run σ α} {s s' : State σ α} {i : Nat}

theorem Plan.room_pos (plan : Plan) : 0 < plan.room := Nat.mul_pos plan.crew_pos (by decide)

/-- Nobody can do anything. -/
def State.Stuck (plan : Plan) (s : State σ α) : Prop := ∀ s', ¬Step plan s s'

/-! ## What each party waits for -/

/-- A reader that finds room for its batch, or nobody who takes it, waits for a permit only. -/
theorem State.Stuck.reader (h : s.Stuck plan) (hroom : s.batches.length < plan.room ∨ s.Untaken) :
    s.reader.isEnded = true ∨
      (s.reader = .waiting ∧ s.permits = 0 ∧ s.stage.sendsPermits = true) := by
  have hstuck : ∀ s', ¬ReaderStep plan s s' := fun s' step => h s' (.reader step)
  cases stands : s.reader with
  | ended fault => exact Or.inl rfl
  | waiting =>
    rcases Nat.eq_zero_or_pos s.permits with hnone | hsome
    · refine Or.inr ⟨rfl, hnone, ?_⟩
      by_contra hunsent
      exact hstuck _ (.runOut stands hnone (eq_false_of_ne_true hunsent))
    · exact absurd (.takePermit stands hsome) (hstuck _)
  | permitted =>
    cases hnext : plan.batches[s.read]? with
    | none => exact absurd (.reachEnd stands hnext) (hstuck _)
    | some batch => exact absurd (.read stands hnext) (hstuck _)
  | holding batch =>
    cases hrun : s.run.interrupted with
    | true => exact absurd (.giveUp stands hrun) (hstuck _)
    | false => exact absurd (.goOn stands hrun) (hstuck _)
  | sending batch =>
    by_cases huntaken : s.Untaken
    · exact absurd (.drop stands huntaken) (hstuck _)
    · exact absurd (.send stands huntaken (hroom.resolve_right huntaken)) (hstuck _)

/-- A worker that finds room for its results, or nobody who takes them, waits for a batch only. -/
theorem State.Stuck.worker (h : s.Stuck plan)
    (hroom : s.results.length < plan.room ∨ s.stage.takesResults = false)
    {w : Worker} (hw : w ∈ s.workers) :
    w = .ended ∨ (w = .idle ∧ s.batches = [] ∧ s.reader.isEnded = false) := by
  obtain ⟨i, stands⟩ := List.getElem?_of_mem hw
  have hstuck : ∀ s', ¬WorkerStep plan i s s' := fun s' step => h s' (.worker i step)
  cases w with
  | ended => exact Or.inl rfl
  | idle =>
    cases hbatches : s.batches with
    | cons first batches => exact absurd (.take stands hbatches) (hstuck _)
    | nil =>
      refine Or.inr ⟨rfl, rfl, ?_⟩
      by_contra hgone
      exact hstuck _ (.runOut stands hbatches (eq_true_of_ne_false hgone))
  | parsing number batch => exact absurd (.parse stands) (hstuck _)
  | sending number results =>
    cases htakes : s.stage.takesResults with
    | false => exact absurd (.drop stands htakes) (hstuck _)
    | true =>
      rw [htakes] at hroom
      exact absurd (.send stands htakes (hroom.resolve_right nofun)) (hstuck _)

/-- The permit that the consumer hands back has room. -/
theorem Lawful.permits_lt (h : Lawful plan s) (haccounted : Accounted s)
    (hthere : s.reader.isEnded = false) (stands : s.stage = .returning) :
    s.permits < plan.limit := by
  have hall := h.metered.all_there hthere
  rw [stands] at hall
  have hperm := haccounted (Or.inr ⟨hthere, by rw [stands]; rfl⟩)
  have hlength := hperm.length_eq
  rw [State.everywhere, List.length_append, List.length_append, List.length_range] at hlength
  have hone : Stage.permits .returning = 1 := rfl
  omega

/-- The consumer waits for results, and for the others to end. -/
theorem Lawful.stuck_consumer (h : Lawful plan s) (haccounted : Accounted s) (hs : s.Stuck plan) :
    (s.stage = .receiving ∧ s.results = [] ∧ ¬s.Idle) ∨
      (s.stage = .joining ∧ ¬(s.reader.isEnded = true ∧ s.Idle)) ∨ s.stage = .ended := by
  have hstuck : ∀ s', ¬ConsumerStep plan s s' := fun s' step => hs s' (.consumer step)
  cases stands : s.stage with
  | launching =>
    rcases Nat.lt_or_ge s.workers.length plan.crew with hshort | hfull
    · exact absurd (.launch stands hshort) (hstuck _)
    · exact absurd (.leaveBatches stands hfull) (hstuck _)
  | parting => exact absurd (.leaveResults stands) (hstuck _)
  | receiving =>
    cases hresults : s.results with
    | cons arrival results => exact absurd (.receive stands hresults) (hstuck _)
    | nil =>
      refine Or.inl ⟨rfl, rfl, fun hidle => ?_⟩
      exact hstuck _ (.runOut stands hresults ⟨by rw [stands]; rfl, hidle⟩)
  | releasing =>
    cases hnext : s.consumer.waiting.find? (·.1 = s.consumer.next) with
    | none => exact absurd (.settle stands hnext) (hstuck _)
    | some w => exact absurd (.release stands hnext) (hstuck _)
  | inserting number rest =>
    cases rest with
    | nil => exact absurd (.complete stands) (hstuck _)
    | cons result rest =>
      cases hfailure : (s.run.step result).failure with
      | none => exact absurd (.insert stands hfailure) (hstuck _)
      | some e => exact absurd (.fail stands (by rw [hfailure]; rfl)) (hstuck _)
  | returning =>
    cases hgone : s.reader.isEnded with
    | true => exact absurd (.keep stands hgone) (hstuck _)
    | false =>
      have hroom := h.permits_lt haccounted hgone stands
      exact absurd (.handBack stands hgone hroom) (hstuck _)
  | closing => exact absurd (.close stands) (hstuck _)
  | leaving => exact absurd (.dropPermits stands) (hstuck _)
  | departing => exact absurd (.dropResults stands) (hstuck _)
  | joining =>
    exact Or.inr (Or.inl ⟨rfl, fun hover => hstuck _ (.join stands hover.1 hover.2)⟩)
  | ended => exact Or.inr (Or.inr rfl)

/-! ## No deadlock -/

/-- If the consumer wants results and nobody has anything, the reader is not out of permits. -/
theorem Lawful.permits_pos (h : Lawful plan s) (haccounted : Accounted s)
    (stands : s.stage = .receiving) (hreader : s.reader = .waiting) (hbatches : s.batches = [])
    (hworkers : ∀ w ∈ s.workers, w.hand = []) (hresults : s.results = []) : 0 < s.permits := by
  have hthere : s.reader.isEnded = false := by rw [hreader]; rfl
  have hwork : s.stage.isAtWork = true := by rw [stands]; rfl
  have hread := h.read_le_next haccounted (Or.inr ⟨hthere, hwork⟩) (by rw [stands]; rfl)
    (by rw [hreader]; rfl) hbatches hworkers hresults
  have hnext := congrArg List.length (h.ordered.next hwork)
  have hall := h.metered.all_there hthere
  have hlimit := plan.limit_pos
  rw [hreader, stands] at hall
  rw [stands, List.length_append, List.length_range] at hnext
  simp only [Reader.permits, Stage.permits, Stage.hand, List.length_nil] at hall hnext
  omega

theorem State.exists_of_not_idle (h : ¬s.Idle) : ∃ w ∈ s.workers, w ≠ .ended := by
  simpa [State.Idle] using h

/-- The consumer that wants results does not wait forever. -/
theorem Lawful.not_stuck_receiving (h : Lawful plan s) (haccounted : Accounted s)
    (stands : s.stage = .receiving) (hresults : s.results = []) (hnot : ¬s.Idle) :
    ¬s.Stuck plan := by
  intro hstuck
  have hworker : ∀ w ∈ s.workers,
      w = .ended ∨ (w = .idle ∧ s.batches = [] ∧ s.reader.isEnded = false) := fun w hw =>
    hstuck.worker (Or.inl (by rw [hresults]; exact plan.room_pos)) hw
  obtain ⟨w, hw, hwork⟩ := State.exists_of_not_idle hnot
  obtain ⟨-, hbatches, hthere⟩ := (hworker w hw).resolve_left hwork
  have hhands : ∀ w ∈ s.workers, w.hand = [] := by
    intro w hw
    rcases hworker w hw with rfl | ⟨rfl, -, -⟩ <;> rfl
  rcases hstuck.reader (Or.inl (by rw [hbatches]; exact plan.room_pos)) with
    hgone | ⟨hreader, hpermits, -⟩
  · rw [hthere] at hgone
    exact nomatch hgone
  · have hpos := h.permits_pos haccounted stands hreader hbatches hhands hresults
    omega

/-- The consumer that waits for the others to end does not wait forever. -/
theorem State.not_stuck_joining (stands : s.stage = .joining)
    (hnot : ¬(s.reader.isEnded = true ∧ s.Idle)) : ¬s.Stuck plan := by
  intro hstuck
  have hunsent : s.stage.sendsPermits ≠ true := by rw [stands]; nofun
  have hworker : ∀ w ∈ s.workers,
      w = .ended ∨ (w = .idle ∧ s.batches = [] ∧ s.reader.isEnded = false) := fun w hw =>
    hstuck.worker (Or.inr (by rw [stands]; rfl)) hw
  have hroom : s.batches.length < plan.room ∨ s.Untaken := by
    by_cases hidle : s.Idle
    · exact Or.inr ⟨by rw [stands]; rfl, hidle⟩
    · obtain ⟨w, hw, hwork⟩ := State.exists_of_not_idle hidle
      rw [((hworker w hw).resolve_left hwork).2.1]
      exact Or.inl plan.room_pos
  rcases hstuck.reader hroom with hgone | ⟨-, -, hsends⟩
  · refine hnot ⟨hgone, fun w hw => ?_⟩
    refine (hworker w hw).resolve_right fun hidle => ?_
    rw [hgone] at hidle
    exact nomatch hidle.2.2
  · exact hunsent hsends

/-- **Where nobody can do anything, every party has ended.** -/
theorem Reachable.over_of_stuck (h : Reachable plan run s) (hstuck : s.Stuck plan) : s.Over := by
  have hlawful := h.lawful
  rcases hlawful.stuck_consumer h.accounted hstuck with
    ⟨stands, hresults, hnot⟩ | ⟨stands, hnot⟩ | hended
  · exact absurd hstuck (hlawful.not_stuck_receiving h.accounted stands hresults hnot)
  · exact absurd hstuck (State.not_stuck_joining stands hnot)
  · exact hlawful.joined hended

/-! ## Safety -/

/-- The batches whose insertion has begun, by their numbers. -/
def State.begun (s : State σ α) : List Nat := s.inserted ++ s.stage.hand

/-- What holds of a pipeline at any time. -/
structure Safe (plan : Plan) (s : State σ α) : Prop where
  /-- Only so many batches are read and not fully inserted. -/
  read_le : s.read ≤ s.inserted.length + inFlightLimit plan.settings.workerCount
  /-- The batches that are fully inserted are the first ones, in their order. -/
  inserted : s.inserted = List.range s.inserted.length
  /-- So are those whose insertion has begun. -/
  begun : s.begun = List.range s.begun.length
  /-- As long as no interruption is wanted and the consumer has not failed, every other batch that
  has been read is at one of its places, at one only and once. -/
  one_place : s.run.interrupted = false → s.run.failure = none →
    (s.begun ++ s.places).Perm (List.range s.read)
  /-- Some party can do something, or every party has ended. -/
  progress : (∃ s', Step plan s s') ∨ s.Over

theorem Ordered.begun_eq (h : Ordered s) : s.begun = List.range s.begun.length := by
  cases hwork : s.stage.isAtWork with
  | true =>
    have hnext : s.begun = List.range s.consumer.next := h.next hwork
    rw [hnext, List.length_range]
  | false =>
    have hhand : s.stage.hand = [] := by
      cases stands : s.stage with
      | inserting number rest => rw [stands] at hwork; exact nomatch hwork
      | _ => rfl
    have hbegun : s.begun = s.inserted := by rw [State.begun, hhand, List.append_nil]
    rw [hbegun]
    exact h.inserted

/-- **A pipeline is safe under every schedule**, whatever it is set up with and whenever it is
interrupted. -/
theorem safe_of_reachable (plan : Plan) (run : Run σ α) :
    ∀ s, Reachable plan run s → Safe plan s := by
  intro s h
  refine ⟨h.lawful.metered.read_le, h.lawful.ordered.inserted, h.lawful.ordered.begun_eq, ?_, ?_⟩
  · exact fun hunset hfailure => h.accounted (Or.inl ⟨hunset, hfailure⟩)
  · by_cases hstuck : s.Stuck plan
    · exact Or.inr (h.over_of_stuck hstuck)
    · exact Or.inl (by simpa [State.Stuck] using hstuck)

/-- The second of two batches arrives while the first is still being parsed. -/
theorem safe_of_reachable_overtaking :
    ∃ (plan : Plan) (run : Run Unit Unit) (s : State Unit Unit),
      Reachable plan run s ∧ s.read = 2 ∧ s.begun = [] ∧ s.workers.flatMap Worker.hand = [0] ∧
        s.consumer.waiting.map Prod.fst = [1] ∧ Safe plan s := by
  let plan : Plan :=
    { reader := .singleAddress
      settings := { workers := some 2 }
      label := ⟨"in.txt"⟩
      batches := [.ofData 1 [52, 10], .ofData 2 [53, 10]] }
  let run : Run Unit Unit :=
    { builder :=
        { provider := .ip2location
          storage := .memory
          listener := .failFast
          state := ()
          phase := .collecting (.memory {}) }
      disk := {} }
  have hlaunched : Reachable plan run _ :=
    (((Reachable.start.step (.consumer (.launch rfl (by decide)))).step
      (.consumer (.launch rfl (by decide)))).step
      (.consumer (.leaveBatches rfl (by decide)))).step (.consumer (.leaveResults rfl))
  have hfirst : Reachable plan run _ :=
    (((hlaunched.step (.reader (.takePermit rfl (by decide)))).step (.reader (.read rfl rfl))).step
      (.reader (.goOn rfl rfl))).step
      (.reader (.send rfl (fun huntaken => nomatch huntaken.2 _ (.head _)) (by decide)))
  have hsecond : Reachable plan run _ :=
    (((hfirst.step (.reader (.takePermit rfl (by decide)))).step (.reader (.read rfl rfl))).step
      (.reader (.goOn rfl rfl))).step
      (.reader (.send rfl (fun huntaken => nomatch huntaken.2 _ (.head _)) (by decide)))
  have hparsed : Reachable plan run _ :=
    (((hsecond.step (.worker 0 (.take rfl rfl))).step (.worker 1 (.take rfl rfl))).step
      (.worker 1 (.parse rfl))).step (.worker 1 (.send rfl rfl (by decide)))
  have harrived : Reachable plan run _ :=
    (hparsed.step (.consumer (.receive rfl rfl))).step (.consumer (.settle rfl rfl))
  exact ⟨plan, run, _, harrived, rfl, rfl, rfl, rfl, safe_of_reachable plan run _ harrived⟩

end Pipeline

end IpAtlas
