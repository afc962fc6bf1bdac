import IpAtlas.Builder
import IpAtlas.Ingest
import IpAtlas.Proofs.Index.Alone
import IpAtlas.Proofs.Index.Records

/-!
# What a builder leaves on the disk

What a builder keeps on the disk follows its phase.  While it is open there may be two files that
were not there before; when it was interrupted there is nothing; and when it was finished there is
its index, or nothing if that could not be moved to its path.  So a builder that is dropped leaves
its index or no trace at all.

## What is here

* `Storage.Leads`, `Storage.Left` — the names of an index file, and a disk on which it was left.
* `Storage.cleared`, `Storage.Untouched` — a disk without what an earlier build may have left, and
  one on which nothing else is another.
* `Index.Fits` — entries whose places fit the slots of an index.
* `Draft.Keeps`, `Draft.Keeps.discard`, `Draft.Keeps.freeze` — what a draft has done to the disk.
* `Builder.Ending`, `Builder.Phase.ending?` — how a build ended.
* `Builder.Keeps` — what a builder has done to the disk, by its phase.
* `Builder.exists_of_take` — what a builder does with the result of a line.
* `Builder.Keeps.take`, `Builder.Keeps.interrupt`, `Builder.Keeps.drop`, `Builder.Keeps.finish` —
  what that leaves.
-/

set_option autoImplicit false

namespace IpAtlas

open Index Disk

/-! ## What is kept on the disk -/

/-- The names that the index file of a storage has, if it has one. -/
def Storage.Leads (storage : Storage) (disk : Disk) (names : List String) : Prop :=
  ∃ path capacity, storage = .file path capacity ∧ disk.Leads path names

/-- The disk without the file that may have been left at a name that the storage uses. -/
def Storage.cleared (disk : Disk) : Storage → Disk
  | .memory => disk
  | .file path _ => Writer.cleared disk path

/-- Nothing but such a file is cleared away, -/
theorem Storage.agrees_cleared (storage : Storage) (disk : Disk) :
    disk.Agrees (Temporary disk.handedOut) (storage.cleared disk) := by
  cases storage with
  | memory => exact agrees_refl _ _
  | file path capacity =>
    exact (Writer.agrees_cleared disk path).mono fun _ => Session.temporary_sidecar

/-- and the index is not such a file. -/
theorem Storage.content_cleared {storage : Storage} {path : Path} {capacity : Nat}
    (hfile : storage = .file path capacity) (disk : Disk) :
    (storage.cleared disk).content path = disk.content path := by
  rw [hfile]
  exact Writer.content_cleared disk path

/-- The index is still found where it was to be. -/
theorem Storage.leads_cleared {storage : Storage} {disk : Disk} {names : List String} :
    storage.Leads (storage.cleared disk) names ↔ storage.Leads disk names := by
  simp only [Storage.Leads, Disk.Leads, (storage.agrees_cleared disk).follow_iff]

/-- Everything is what it was, but for the file that may have been left. -/
def Storage.Untouched (storage : Storage) (before after : Disk) : Prop :=
  before.Unchanged after ∨ (storage.cleared before).Unchanged after

theorem Storage.Untouched.content_eq {storage : Storage} {before after : Disk} {path : Path}
    {capacity : Nat} (h : storage.Untouched before after) (hfile : storage = .file path capacity) :
    after.content path = before.content path := by
  rcases h with h | h
  · exact h.content_eq path
  · exact (h.content_eq path).trans (Storage.content_cleared hfile before)

/-- Where none was left everything is what it was. -/
theorem Storage.Untouched.unchanged {storage : Storage} {before after : Disk} {path : Path}
    {capacity : Nat} (h : storage.Untouched before after) (hfile : storage = .file path capacity)
    (hnone : ¬ before.HasFile (Session.fresh before path).writer.sidecar) :
    before.Unchanged after := by
  rcases h with h | h
  · exact h
  · rwa [hfile, Storage.cleared, Writer.cleared_of_not_file hnone] at h

/-- Entries whose places fit the slots of an index. -/
def Index.Fits (entries : List Entry) : Prop := (headerOf entries).table < Bytes.capacity slotSize

/-- The index of a storage is where it belongs, if it has one, and nothing else is another. -/
structure Storage.Left (before after : Disk) (entries : List Entry) (storage : Storage) : Prop where
  agrees : before.Agrees (storage.Leads before) after
  receives : ∀ path capacity, storage = .file path capacity → before.Receives path
  content_eq : ∀ path capacity, storage = .file path capacity →
    after.content path = some (.file (image entries))

namespace Draft

variable {before disk : Disk} {storage : Storage} {draft : Draft}

/-- What a draft has done to the disk. -/
def Keeps (before disk : Disk) (storage : Storage) : Draft → Prop
  | memory _ => storage = .memory ∧ before.Unchanged disk
  | file w capacity => storage = .file w.path capacity ∧
      ∃ building sidecar, w.Alone before disk building sidecar

theorem keeps_of_open (h : Draft.open before storage = (.ok draft, disk)) :
    draft.Keeps (storage.cleared before) disk storage := by
  cases storage with
  | memory =>
    obtain ⟨rfl, rfl⟩ : Draft.memory {} = draft ∧ before = disk :=
      ⟨Except.ok.inj (Prod.mk.inj h).1, (Prod.mk.inj h).2⟩
    exact ⟨rfl, unchanged_refl before⟩
  | file path capacity =>
    rw [Draft.open] at h
    cases hcreate : Writer.create before path with
    | mk result disk' =>
      rw [hcreate] at h
      cases result with
      | error e => cases (Prod.mk.inj h).1
      | ok w =>
        obtain ⟨rfl, rfl⟩ : Draft.file w capacity = draft ∧ disk' = disk :=
          ⟨Except.ok.inj (Prod.mk.inj h).1, (Prod.mk.inj h).2⟩
        obtain ⟨rfl, halone⟩ := Writer.alone_of_create hcreate
        exact ⟨rfl, halone⟩

theorem unchanged_of_open {e : Error} (h : Draft.open before storage = (.error e, disk)) :
    before.Unchanged disk := by
  cases storage with
  | memory => cases (Prod.mk.inj h).1
  | file path capacity =>
    rw [Draft.open] at h
    cases hcreate : Writer.create before path with
    | mk result disk' =>
      rw [hcreate] at h
      cases result with
      | ok w => cases (Prod.mk.inj h).1
      | error e' =>
        rw [← (Prod.mk.inj h).2]
        exact Writer.unchanged_of_create hcreate

theorem Keeps.append (h : draft.Keeps before disk storage) (e : Entry) :
    (draft.append e).Keeps before disk storage := by
  cases draft with
  | memory ranges => exact h
  | file w capacity =>
    obtain ⟨hstorage, building, sidecar, halone⟩ := h
    exact ⟨hstorage, building, sidecar, halone.append e⟩

/-- Until it is frozen, the index is the one that was there. -/
theorem Keeps.content_eq {path : Path} {capacity : Nat}
    (h : draft.Keeps before disk (.file path capacity)) :
    disk.content path = before.content path := by
  cases draft with
  | memory ranges => exact nomatch h.1
  | file w capacity' =>
    obtain ⟨hstorage, building, sidecar, halone⟩ := h
    obtain ⟨rfl, rfl⟩ := Storage.file.inj hstorage
    refine halone.agrees.content_eq fun goal hgoal => ?_
    obtain ⟨hbuilding, hsidecar⟩ := halone.apart goal hgoal
    exact not_or.2 ⟨hbuilding, hsidecar⟩

/-- **A draft that is given up leaves nothing.** -/
theorem Keeps.discard (h : draft.Keeps before disk storage) :
    before.Unchanged (draft.discard disk).1 := by
  cases draft with
  | memory ranges => exact h.2
  | file w capacity =>
    obtain ⟨-, building, sidecar, halone⟩ := h
    exact halone.abort

/-- **A draft that is frozen leaves its index or nothing**, and there is a database of it if it
leaves its index, as long as the places in the index fit their slots. -/
theorem Keeps.freeze (h : draft.Keeps before disk storage) :
    (storage.Left before (draft.freeze disk).2.1 draft.entries ∧
      ((draft.freeze disk).1.isOk = true ∨ ¬ Index.Fits draft.entries)) ∨
    (before.Unchanged (draft.freeze disk).2.1 ∧ (draft.freeze disk).1.isOk = false) := by
  cases draft with
  | memory ranges =>
    obtain ⟨rfl, hsame⟩ := h
    exact Or.inl ⟨⟨hsame.agrees _, fun _ _ => nofun, fun _ _ => nofun⟩, Or.inl rfl⟩
  | file w capacity =>
    obtain ⟨rfl, building, sidecar, halone⟩ := h
    cases hfinish : w.finish disk with
    | mk result rest =>
      obtain ⟨after, remarks⟩ := rest
      have hfinished := halone.finish
      rw [hfinish] at hfinished
      simp only [freeze, hfinish]
      rcases hfinished with ⟨rfl, hreceives, goal, hgoal, hagrees, hentry⟩ | ⟨⟨e, rfl⟩, hsame⟩
      · have hleads := hagrees.follow_iff.2 hgoal
        refine Or.inl ⟨⟨hagrees.mono ?_, ?_, ?_⟩, ?_⟩
        · rintro names rfl
          exact ⟨_, _, rfl, hgoal⟩
        · rintro path capacity' ⟨rfl, rfl⟩
          exact hreceives
        · rintro path capacity' ⟨rfl, rfl⟩
          exact (content_of_follow hleads).trans hentry
        · refine Classical.or_iff_not_imp_right.2 fun hfits => ?_
          obtain ⟨r, hr⟩ :=
            (Reader.exists_open_iff (map_eq_ok hleads hentry)).2 (Classical.not_not.1 hfits)
          simp only [hr]
          rfl
      · exact Or.inr ⟨hsame, rfl⟩

end Draft

/-! ## Builders -/

namespace Builder

variable {σ : Type}

/-- How a build ended. -/
inductive Ending where
  | finished
  | interrupted
  deriving DecidableEq

/-- The error of a build that ended so. -/
def Ending.error (provider : Provider) : Ending → Error
  | finished => .finished provider
  | interrupted => .interrupted provider

/-- How a build ended that is in some phase, if it did. -/
def Phase.ending? : Phase → Option Ending
  | .collecting _ => none
  | .finished => some .finished
  | .interrupted => some .interrupted

/-- What a builder has done to the disk, by its phase. -/
def Keeps (before disk : Disk) (b : Builder σ) : Prop :=
  match b.phase with
  | .collecting draft => draft.Keeps before disk b.storage
  | .interrupted => before.Unchanged disk
  | .finished => before.Agrees (b.storage.Leads before) disk

section

variable {before disk : Disk} {b : Builder σ} {draft : Draft} {provider : Provider}
  {storage : Storage} {listener : Listener σ} {state : σ}

theorem keeps_of_interrupted (hphase : b.phase = .interrupted) (h : before.Unchanged disk) :
    b.Keeps before disk := by
  simpa only [Keeps, hphase] using h

theorem ending?_eq_none_iff : b.phase.ending? = none ↔ ∃ draft, b.phase = .collecting draft := by
  cases b.phase <;> simp [Phase.ending?]

theorem keeps_of_start (h : start before provider storage listener state = (.ok b, disk)) :
    b.provider = provider ∧ b.storage = storage ∧ b.listener = listener ∧ b.state = state ∧
      b.phase.ending? = none ∧ b.Keeps (storage.cleared before) disk := by
  rw [start] at h
  cases hopen : Draft.open before storage with
  | mk result disk' =>
    rw [hopen] at h
    cases result with
    | error e => exact nomatch (Prod.mk.inj h).1
    | ok draft =>
      obtain ⟨hb, rfl⟩ := Prod.mk.inj h
      obtain rfl := Except.ok.inj hb
      exact ⟨rfl, rfl, rfl, rfl, rfl, Draft.keeps_of_open hopen⟩

theorem unchanged_of_start {e : Error}
    (h : start before provider storage listener state = (.error e, disk)) :
    before.Unchanged disk := by
  rw [start] at h
  cases hopen : Draft.open before storage with
  | mk result disk' =>
    rw [hopen] at h
    cases result with
    | ok draft => exact nomatch (Prod.mk.inj h).1
    | error e' =>
      obtain ⟨-, rfl⟩ := Prod.mk.inj h
      exact Draft.unchanged_of_open hopen

/-- **What a builder that is open does with the result of a line**: it goes on, with one more entry
or with those it had. -/
theorem exists_of_take (hphase : b.phase = .collecting draft) (result : LineResult) :
    ∃ draft' state last counts,
      (b.take result).builder = { b with state, phase := .collecting draft', last, counts } ∧
        (draft' = draft ∨ ∃ e, draft' = draft.append e) := by
  obtain ⟨provider, storage, listener, state, phase, last, counts⟩ := b
  obtain rfl : phase = .collecting draft := hphase
  cases result with
  | ok record =>
    rw [take, insert]
    dsimp only
    split
    · exact ⟨_, _, _, _, rfl, Or.inl rfl⟩
    · exact ⟨_, _, _, _, rfl, Or.inr ⟨_, rfl⟩⟩
  | error e => exact ⟨_, _, _, _, rfl, Or.inl rfl⟩

theorem Keeps.of_collecting (h : b.Keeps before disk) (hphase : b.phase = .collecting draft) :
    draft.Keeps before disk b.storage := by
  simpa only [Keeps, hphase] using h

theorem take_of_ended {ending : Ending} (h : b.phase.ending? = some ending) (result : LineResult) :
    b.take result = { result := .error b.closedError, builder := b } := by
  cases hphase : b.phase with
  | collecting draft =>
    rw [hphase] at h
    exact nomatch h
  | finished => cases result <;> simp only [take, insert, reportParseError, hphase]
  | interrupted => cases result <;> simp only [take, insert, reportParseError, hphase]

/-- **It keeps what it keeps**, and is as far as it was, -/
theorem Keeps.take (h : b.Keeps before disk) (result : LineResult) :
    (b.take result).builder.Keeps before disk ∧
      (b.take result).builder.phase.ending? = b.phase.ending? ∧
      (b.take result).builder.storage = b.storage := by
  cases hended : b.phase.ending? with
  | some ending =>
    rw [take_of_ended hended]
    exact ⟨h, hended, rfl⟩
  | none =>
    obtain ⟨draft, hphase⟩ := ending?_eq_none_iff.1 hended
    obtain ⟨draft', state, last, counts, hb, hdraft⟩ := exists_of_take hphase result
    rw [hb]
    refine ⟨?_, rfl, rfl⟩
    rcases hdraft with rfl | ⟨e, rfl⟩
    · exact h.of_collecting hphase
    · exact (h.of_collecting hphase).append e

/-- What a builder keeps that was interrupted: nothing. -/
theorem Keeps.of_interrupted (h : b.Keeps before disk) (hphase : b.phase = .interrupted) :
    before.Unchanged disk := by
  simpa only [Keeps, hphase] using h

/-- **and unless it was finished, it leaves nothing when it is interrupted**, -/
theorem Keeps.interrupt (h : b.Keeps before disk) (hnot : b.phase.ending? ≠ some .finished) :
    before.Unchanged (b.interrupt disk).2 ∧ (b.interrupt disk).1.builder.phase = .interrupted ∧
      (b.interrupt disk).1.builder.storage = b.storage := by
  rw [Builder.interrupt.eq_def]
  cases hphase : b.phase with
  | collecting draft => exact ⟨(h.of_collecting hphase).discard, rfl, rfl⟩
  | interrupted => exact ⟨h.of_interrupted hphase, hphase, rfl⟩
  | finished => exact absurd (congrArg Phase.ending? hphase) hnot

/-- nor when it is dropped. -/
theorem Keeps.drop (h : b.Keeps before disk) (hnot : b.phase.ending? ≠ some .finished) :
    before.Unchanged (b.drop disk).1 := by
  rw [Builder.drop.eq_def]
  cases hphase : b.phase with
  | collecting draft => exact (h.of_collecting hphase).discard
  | interrupted => exact h.of_interrupted hphase
  | finished => exact absurd (congrArg Phase.ending? hphase) hnot

theorem builder_finish (hphase : b.phase = .collecting draft) (disk : Disk) :
    (b.finish disk).2.1 = { b with phase := .finished } := by
  rw [Builder.finish, hphase]
  dsimp only
  split <;> rfl

/-- **When it is finished it leaves its index or nothing.** -/
theorem Keeps.finish (h : b.Keeps before disk) (hphase : b.phase = .collecting draft) :
    (b.storage.Left before (b.finish disk).2.2.1 b.stored ∧
      ((b.finish disk).1.isOk = true ∨ ¬ Index.Fits b.stored)) ∨
    (before.Unchanged (b.finish disk).2.2.1 ∧ (b.finish disk).1.isOk = false) := by
  have hstored : b.stored = draft.entries := by rw [stored, hphase]
  have hfreeze := (h.of_collecting hphase).freeze
  rw [hstored, Builder.finish, hphase]
  dsimp only
  split
  · rename_i hresult
    rw [hresult] at hfreeze
    exact hfreeze
  · rename_i hresult
    rw [hresult] at hfreeze
    exact hfreeze

end

end Builder

end IpAtlas
