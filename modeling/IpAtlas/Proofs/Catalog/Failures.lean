import IpAtlas.Proofs.LineSource

/-!
# What a build can fail with

The build of a line source fails because of the disk, because of the bytes of the index that it
wrote, because it was interrupted, or because its listener has ended it.  Only the listener is free in
the error that it hands out, and the two of the library hand out none but that a record is out of
order.  So with these, what is wrong with registrations is never told by the build of one of them.

## What is here

* `Listener.HandsOut` — an error that a listener may end a build with.
* `Builder.MayFail` — the errors that the build of a provider's database can fail with.
* `LineSource.mayFail_of_build` — it fails with no other.
-/

set_option autoImplicit false

namespace IpAtlas

variable {σ : Type} {listener : Listener σ} {provider : Provider} {e : Error}

/-- An error that a listener may end the build of a provider's database with: what it answers to some
record that is out of order, or to some line that is no record. -/
inductive Listener.HandsOut (listener : Listener σ) (provider : Provider) (e : Error) : Prop where
  | outOfOrder {state : σ} {line : Line} {last first : Address}
      (h : (listener.outOfOrder state provider line
        (.outOfOrder provider line.number last first)).1 = .error e)
  | parseFailed {state : σ} {cause : ParseError}
      (h : (listener.parseFailed state provider cause).1 = .error e)

theorem Listener.HandsOut.of_failFast (h : (failFast : Listener σ).HandsOut provider e) :
    ∃ line last first, e = .outOfOrder provider line last first := by
  cases h with
  | outOfOrder h => exact ⟨_, _, _, (Except.error.inj h).symm⟩
  | parseFailed h => exact nomatch h

theorem Listener.not_handsOut_skipping : ¬ (skipping : Listener σ).HandsOut provider e := by
  intro h
  cases h with
  | outOfOrder h => exact nomatch h
  | parseFailed h => exact nomatch h

/-- The errors that the build of a provider's database can fail with. -/
inductive Builder.MayFail (listener : Listener σ) (provider : Provider) : Error → Prop where
  /-- The disk does not let it. -/
  | io (e : IoError) : MayFail listener provider (.io e)
  /-- The index that was written cannot be read. -/
  | index (fault : Index.Fault) : MayFail listener provider (.index fault)
  /-- It was interrupted. -/
  | interrupted : MayFail listener provider (.interrupted provider)
  /-- Its listener has ended it. -/
  | handedOut {e : Error} (h : listener.HandsOut provider e) : MayFail listener provider e

theorem eq_error_of_errorOf? {β : Type} {result : Except Error β}
    (h : errorOf? result = some e) : result = .error e := by
  cases result with
  | ok _ => exact nomatch h
  | error e' => exact congrArg _ (Option.some_inj.1 h)

namespace Builder

/-- A builder that was not finished and can fail in these ways only, and has if it has failed. -/
structure Bound (listener : Listener σ) (provider : Provider) (b : Builder σ)
    (failure : Option Error) : Prop where
  listener_eq : b.listener = listener
  provider_eq : b.provider = provider
  unfinished : b.phase.ending? ≠ some .finished
  mayFail : ∀ e, failure = some e → MayFail listener provider e

section

variable {b : Builder σ} {failure : Option Error} {disk : Disk} {draft : Draft}

/-! ## Calls to a builder -/

theorem Bound.closedError_eq (h : b.Bound listener provider failure)
    (hended : b.phase.ending? ≠ none) : b.closedError = .interrupted provider := by
  have hunfinished := h.unfinished
  rw [closedError]
  cases hphase : b.phase with
  | collecting draft => exact absurd (congrArg Phase.ending? hphase) hended
  | finished => exact absurd (congrArg Phase.ending? hphase) hunfinished
  | interrupted => rw [h.provider_eq]

/-- What ends a line at an open builder is its listener. -/
theorem handsOut_of_take (hphase : b.phase = .collecting draft) {result : LineResult}
    (h : (b.take result).result = .error e) : b.listener.HandsOut b.provider e := by
  cases result with
  | ok record =>
    rw [take, insert, hphase] at h
    cases hlast : b.obstacle? record with
    | some last =>
      rw [hlast] at h
      exact .outOfOrder h
    | none =>
      rw [hlast] at h
      cases h
  | error cause =>
    rw [take, reportParseError, hphase] at h
    exact .parseFailed h

theorem Bound.take (h : b.Bound listener provider failure) (result : LineResult) :
    (b.take result).builder.Bound listener provider (errorOf? (b.take result).result) := by
  cases hended : b.phase.ending? with
  | some ending =>
    rw [take_of_ended hended]
    refine ⟨h.listener_eq, h.provider_eq, h.unfinished, fun e he => ?_⟩
    obtain rfl : b.closedError = e := Option.some_inj.1 he
    rw [h.closedError_eq (by rw [hended]; exact Option.some_ne_none ending)]
    exact .interrupted
  | none =>
    obtain ⟨draft, hphase⟩ := ending?_eq_none_iff.1 hended
    obtain ⟨draft', state, last, counts, hb, -⟩ := exists_of_take hphase result
    have hresult : ∀ e, errorOf? (b.take result).result = some e →
        MayFail listener provider e := by
      intro e he
      have hout := handsOut_of_take hphase (eq_error_of_errorOf? he)
      rw [h.listener_eq, h.provider_eq] at hout
      exact .handedOut hout
    rw [hb]
    exact ⟨h.listener_eq, h.provider_eq, (Option.some_ne_none _).symm, hresult⟩

theorem exists_of_interrupt (hunfinished : b.phase.ending? ≠ some .finished) (disk : Disk) :
    ∃ state, (b.interrupt disk).1.builder = { b with state, phase := .interrupted } := by
  obtain ⟨provider, storage, listener, state, phase, last, counts⟩ := b
  cases phase with
  | collecting draft => exact ⟨_, rfl⟩
  | finished => exact absurd rfl hunfinished
  | interrupted => exact ⟨state, rfl⟩

theorem Bound.interrupt (h : b.Bound listener provider failure) (disk : Disk) :
    (b.interrupt disk).1.builder.Bound listener provider
      (errorOf? (b.interrupt disk).1.result) := by
  obtain ⟨state, hb⟩ := exists_of_interrupt h.unfinished disk
  rw [hb, Run.result_interrupt]
  refine ⟨h.listener_eq, h.provider_eq, nofun, fun e he => ?_⟩
  rw [h.provider_eq] at he
  obtain rfl : Error.interrupted provider = e := Option.some_inj.1 he
  exact .interrupted

/-- **A run fails in these ways only.** -/
theorem invariant_bound (listener : Listener σ) (provider : Provider) :
    Run.Invariant fun (b : Builder σ) _ failure => b.Bound listener provider failure where
  take h result := h.take result
  interrupt h := h.interrupt _
  fault h e := by
    refine ⟨h.listener_eq, h.provider_eq, h.unfinished, fun e' he => ?_⟩
    obtain rfl : Error.io e = e' := Option.some_inj.1 he
    exact .io e

theorem mayFail_of_freeze (h : (draft.freeze disk).1 = .error e) :
    MayFail listener provider e := by
  cases draft with
  | memory ranges => cases h
  | file writer capacity =>
    rw [Draft.freeze, Index.Writer.finish] at h
    cases hcomplete : writer.complete disk with
    | error cause =>
      rw [hcomplete] at h
      obtain rfl : Error.io cause = e := Except.error.inj h
      exact .io cause
    | ok disk' =>
      rw [hcomplete] at h
      dsimp only at h
      rw [Index.Reader.open] at h
      cases hmap : disk'.map writer.path with
      | error cause =>
        rw [hmap] at h
        obtain rfl : Error.io cause = e := Except.error.inj h
        exact .io cause
      | ok content =>
        rw [hmap] at h
        dsimp only at h
        rw [Index.Reader.ofBytes] at h
        cases hread : Index.Header.read content with
        | ok header =>
          rw [hread] at h
          cases h
        | error fault =>
          rw [hread] at h
          obtain rfl : Error.index fault = e := Except.error.inj h
          exact .index fault

theorem Bound.mayFail_of_finish (h : b.Bound listener provider failure)
    (he : (b.finish disk).1 = .error e) : MayFail listener provider e := by
  cases hended : b.phase.ending? with
  | some ending =>
    have hclosed := h.closedError_eq (by rw [hended]; exact Option.some_ne_none ending)
    have hfinish : (b.finish disk).1 = .error b.closedError := by
      rw [finish]
      cases hphase : b.phase with
      | collecting draft =>
        rw [hphase] at hended
        cases hended
      | finished => rfl
      | interrupted => rfl
    rw [hfinish, hclosed] at he
    obtain rfl := Except.error.inj he
    exact .interrupted
  | none =>
    obtain ⟨draft, hphase⟩ := ending?_eq_none_iff.1 hended
    have hfrozen : (draft.freeze disk).1 = .error e := by
      rw [finish, hphase] at he
      dsimp only at he
      split at he
      · cases he
      · rename_i hfreeze
        rw [hfreeze]
        exact he
    exact mayFail_of_freeze hfrozen

end

end Builder

/-! ## Builds -/

namespace LineSource

variable {source : LineSource σ} {interrupted : Bool} {disk : Disk}

theorem mayFail_of_start {opened : Disk} (h : source.start provider disk = (.error e, opened)) :
    Builder.MayFail source.listener provider e := by
  rw [start, Builder.start] at h
  cases hstorage : source.settings.storage with
  | memory =>
    rw [hstorage] at h
    cases (Prod.mk.inj h).1
  | file path capacity =>
    rw [hstorage, Draft.open, Index.Writer.create] at h
    dsimp only at h
    split at h
    · cases (Prod.mk.inj h).1
    · rename_i cause _
      obtain rfl : Error.io cause = e := Except.error.inj (Prod.mk.inj h).1
      exact .io cause

theorem mayFail_of_conclude {run : Run σ Flag} {listener : Listener σ}
    (h : run.Has fun b _ failure => b.Bound listener provider failure)
    (he : (conclude run).result = .error e) : Builder.MayFail listener provider e := by
  rw [conclude] at he
  cases hfailure : run.failure with
  | some cause =>
    rw [hfailure] at he
    obtain rfl : cause = e := Except.error.inj he
    exact h.mayFail _ hfailure
  | none =>
    rw [hfailure] at he
    exact h.mayFail_of_finish he

/-- **What the build of a source can fail with.** -/
theorem mayFail_of_build (he : (source.build provider interrupted disk).result = .error e) :
    Builder.MayFail source.listener provider e := by
  rw [build, ← start] at he
  cases hstart : source.start provider disk with
  | mk result opened =>
    rw [hstart] at he
    cases result with
    | error cause =>
      obtain rfl : cause = e := Except.error.inj he
      exact mayFail_of_start hstart
    | ok b =>
      obtain ⟨hprovider, -, hlistener, -, hopen, -⟩ := Builder.keeps_of_start hstart
      dsimp only at he
      cases hsource : source.open? opened with
      | error cause =>
        rw [hsource] at he
        obtain rfl : Error.io cause = e := Except.error.inj he
        exact .io cause
      | ok found =>
        rw [hsource] at he
        refine mayFail_of_conclude (Run.Invariant.ingest
          (Builder.invariant_bound source.listener provider) ?_ _ _ _ _) he
        refine ⟨hlistener, hprovider, ?_, fun e h => ?_⟩
        · show b.phase.ending? ≠ some .finished
          rw [hopen]
          exact (Option.some_ne_none _).symm
        · cases h

end LineSource

end IpAtlas
