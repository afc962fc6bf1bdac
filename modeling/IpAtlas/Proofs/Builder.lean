import IpAtlas.Builder
import IpAtlas.Proofs.Storage

/-!
# What a build stores

Of the records that a builder is given it stores those that start after the end of the last one it
stored, and nothing else matters: not who listens, not what the listener answers, not where the
ranges are kept, not the lines in between that are no records.  So the records that are stored can
be told from the list of records alone.  They ascend, and the database that they are frozen to
answers as they do.

## What is here

* `Record.Follows`, `Record.inserted` — the records of a list that are stored.
* `Builder.HasStored` — a builder that has stored some records and goes on.
* `Builder.HasStored.insert`, `Builder.hasStored_takeAll` — one record, and any number of them.
* `Builder.answer_of_finish` — what the database of a build answers, wherever it is kept.
-/

set_option autoImplicit false

namespace IpAtlas

namespace Record

/-- A record that starts after the end of the last of some records. -/
def Follows (stored : List Record) (record : Record) : Prop :=
  ∀ last ∈ stored.getLast?, last.range.last < record.range.first

instance (stored : List Record) (record : Record) : Decidable (Follows stored record) :=
  inferInstanceAs (Decidable (∀ last ∈ stored.getLast?, last.range.last < record.range.first))

/-- Some stored records with one more behind them, if it follows. -/
def insertInto (stored : List Record) (record : Record) : List Record :=
  if Follows stored record then stored ++ [record] else stored

/-- The records of a list that are stored: each starts after the end of the last one before it. -/
def inserted (records : List Record) : List Record := records.foldl insertInto []

end Record

namespace Builder

variable {σ : Type}

/-- A builder that has stored some records, and takes more. -/
structure HasStored (b : Builder σ) (records : List Record) : Prop where
  collecting : ∃ draft, b.phase = .collecting draft ∧ draft.entries = records.map entryOf
  last : b.last = records.getLast?.map (·.range.last)
  counted : b.counts.inserted = records.length
  ascending : Span.Ascending (records.map (·.range.toSpan))

section

variable {b : Builder σ} {records : List Record} {record : Record}

theorem HasStored.stored_eq (h : b.HasStored records) : b.stored = records.map entryOf := by
  obtain ⟨draft, hphase, hentries⟩ := h.collecting
  rw [stored, hphase, ← hentries]

theorem HasStored.obstacle?_eq_none_iff (h : b.HasStored records) :
    b.obstacle? record = none ↔ Record.Follows records record := by
  rw [obstacle?, h.last, Record.Follows]
  cases records.getLast? with
  | none => simp
  | some last =>
    simp only [Option.map_some, Option.filter_eq_none_iff, Option.mem_some_iff, forall_eq',
      decide_eq_true_eq, Option.some.injEq]
    exact Address.not_le

/-- A record that follows is stored. -/
theorem HasStored.accept (h : b.HasStored records) (hfollows : Record.Follows records record)
    {draft : Draft} (hentries : draft.entries = records.map entryOf) :
    (b.accept draft record).builder.HasStored (records ++ [record]) where
  collecting := ⟨_, rfl, by rw [Draft.entries_append, hentries, List.map_append]; rfl⟩
  last := by simp [Builder.accept]
  counted := by simp [Builder.accept, h.counted]
  ascending := by
    rw [List.map_append]
    refine Span.ascending_concat h.ascending record.range.valid fun t ht => ?_
    rw [List.getLast?_map] at ht
    obtain ⟨last, hlast, rfl⟩ := Option.map_eq_some_iff.1 ht
    exact hfollows last hlast

theorem HasStored.congr {b' : Builder σ} (h : b.HasStored records) (hphase : b'.phase = b.phase)
    (hlast : b'.last = b.last) (hcounts : b'.counts.inserted = b.counts.inserted) :
    b'.HasStored records :=
  ⟨hphase ▸ h.collecting, hlast.trans h.last, hcounts.trans h.counted, h.ascending⟩

/-- Leaving a record to the listener changes nothing that is stored. -/
theorem HasStored.refuse (h : b.HasStored records) (last : Address) :
    (b.refuse last record).builder.HasStored records := by
  refine h.congr rfl rfl ?_
  rw [Builder.refuse]
  split
  dsimp only
  split <;> rfl

/-- What a builder does with a record that follows. -/
theorem HasStored.insert_of_follows (h : b.HasStored records)
    (hfollows : Record.Follows records record) :
    ∃ draft, b.insert record = b.accept draft record ∧
      (b.insert record).builder.HasStored (records ++ [record]) := by
  obtain ⟨draft, hphase, hentries⟩ := h.collecting
  have hinsert : b.insert record = b.accept draft record := by
    rw [Builder.insert, hphase, h.obstacle?_eq_none_iff.2 hfollows]
  exact ⟨draft, hinsert, hinsert ▸ h.accept hfollows hentries⟩

/-- And with one that does not. -/
theorem HasStored.insert_of_not_follows (h : b.HasStored records)
    (hnot : ¬ Record.Follows records record) :
    ∃ last, b.insert record = b.refuse last record ∧
      (b.insert record).builder.HasStored records := by
  obtain ⟨draft, hphase, -⟩ := h.collecting
  obtain ⟨last, hlast⟩ := Option.ne_none_iff_exists'.1 (h.obstacle?_eq_none_iff.not.2 hnot)
  have hinsert : b.insert record = b.refuse last record := by
    rw [Builder.insert, hphase, hlast]
  exact ⟨last, hinsert, hinsert ▸ h.refuse last⟩

/-- **A record is stored if it follows, and otherwise nothing is.** -/
theorem HasStored.insert (h : b.HasStored records) (record : Record) :
    (b.insert record).builder.HasStored (Record.insertInto records record) := by
  rw [Record.insertInto]
  split
  · rename_i hfollows
    obtain ⟨_, -, hstored⟩ := h.insert_of_follows hfollows
    exact hstored
  · rename_i hnot
    obtain ⟨_, -, hstored⟩ := h.insert_of_not_follows hnot
    exact hstored

theorem HasStored.reportParseError (h : b.HasStored records) (e : ParseError) :
    (b.reportParseError e).builder.HasStored records := by
  obtain ⟨draft, hphase, -⟩ := h.collecting
  rw [Builder.reportParseError, hphase]
  exact h.congr hphase.symm rfl rfl

end

/-! ## Whole builds -/

/-- The builder when it has been given the results of some lines, whatever it answered. -/
def takeAll (b : Builder σ) (results : List (Except ParseError Record)) : Builder σ :=
  results.foldl (fun b result => (b.take result).builder) b

/-- The records among the results of some lines. -/
def recordsOf (results : List (Except ParseError Record)) : List Record :=
  results.filterMap Except.toOption

theorem HasStored.takeAll {b : Builder σ} {records : List Record} (h : b.HasStored records)
    (results : List (Except ParseError Record)) :
    (b.takeAll results).HasStored ((recordsOf results).foldl Record.insertInto records) := by
  induction results generalizing b records with
  | nil => exact h
  | cons result results ih =>
    cases result with
    | ok record => exact ih (h.insert record)
    | error e => exact ih (h.reportParseError e)

variable {disk later : Disk} {provider : Provider} {storage : Storage} {listener : Listener σ}
  {state : σ} {b : Builder σ} {results : List (Except ParseError Record)} {database : Database}

/-- A build begins with nothing stored and nothing counted. -/
theorem exists_of_start (h : (start disk provider storage listener state).1 = .ok b) :
    ∃ draft, draft.entries = [] ∧
      b = { provider, storage, listener, state, phase := .collecting draft } := by
  rw [start] at h
  cases hopen : Draft.open disk storage with
  | mk draft disk' =>
    rw [hopen] at h
    cases draft with
    | error e => exact nomatch h
    | ok draft => exact ⟨draft, Draft.entries_of_open hopen, (Except.ok.inj h).symm⟩

theorem hasStored_of_start (h : (start disk provider storage listener state).1 = .ok b) :
    b.HasStored [] := by
  obtain ⟨draft, hentries, rfl⟩ := exists_of_start h
  exact ⟨⟨draft, rfl, hentries⟩, rfl, rfl, Span.ascending_nil⟩

/-- **What a build has stored can be told from the records alone.** -/
theorem hasStored_takeAll (h : (start disk provider storage listener state).1 = .ok b)
    (results : List (Except ParseError Record)) :
    (b.takeAll results).HasStored (Record.inserted (recordsOf results)) :=
  (hasStored_of_start h).takeAll results

/-- The database of a build holds what was stored. -/
theorem HasStored.holds_of_finish {records : List Record} (h : b.HasStored records)
    (hfinish : (b.finish later).1 = .ok database) : database.Holds (records.map entryOf) := by
  obtain ⟨draft, hphase, hentries⟩ := h.collecting
  rw [finish, hphase] at hfinish
  rw [← hentries]
  cases hfreeze : draft.freeze later with
  | mk result rest =>
    obtain ⟨disk', remarks⟩ := rest
    simp only [hfreeze] at hfinish
    cases result with
    | error e => exact nomatch hfinish
    | ok database' =>
      obtain rfl := Except.ok.inj hfinish
      exact Draft.holds_of_freeze hfreeze

/-- A database that some build from the results of some lines comes to. -/
def Builds (storage : Storage) (results : List (Except ParseError Record))
    (database : Database) : Prop :=
  ∃ (σ : Type) (listener : Listener σ) (state : σ) (provider : Provider) (disk later : Disk)
    (b : Builder σ), (start disk provider storage listener state).1 = .ok b ∧
      ((b.takeAll results).finish later).1 = .ok database

theorem Builds.holds (h : Builds storage results database) :
    database.Holds ((Record.inserted (recordsOf results)).map entryOf) := by
  obtain ⟨σ, listener, state, provider, disk, later, b, hstart, hfinish⟩ := h
  exact (hasStored_takeAll hstart results).holds_of_finish hfinish

/-! ## What a build answers -/

theorem answerOf_map_entryOf (records : List Record) (a : Address) :
    Entry.answerOf (records.map entryOf) a =
      (records.find? fun record => record.range.contains a).map fun record =>
        record.location.rebind record.range.toSpan := by
  rw [Entry.answerOf, List.find?_map, Option.map_map]
  rfl

/-- One of ascending records answers, and no other covers the address, or none does. -/
theorem answerOf_eq_some_iff {records : List Record}
    (hasc : Span.Ascending (records.map (·.range.toSpan))) {a : Address} {location : Location} :
    Entry.answerOf (records.map entryOf) a = some location ↔
      ∃ record, records.filter (·.range.contains a) = [record] ∧
        location = record.location.rebind record.range.toSpan := by
  rw [answerOf_map_entryOf, hasc.filter_contains a, Option.map_eq_some_iff]
  refine exists_congr fun record => ?_
  rw [eq_comm (a := location)]
  refine and_congr_left fun _ => ?_
  cases records.find? fun record => record.range.contains a <;> simp

theorem answerOf_eq_none_iff {records : List Record} {a : Address} :
    Entry.answerOf (records.map entryOf) a = none ↔
      ∀ record ∈ records, ¬ record.range.contains a = true := by
  rw [answerOf_map_entryOf, Option.map_eq_none_iff, List.find?_eq_none]

/-- What the database of a build answers, whatever was looked up before. -/
theorem HasStored.answer_after_eq_some_iff {records : List Record} (h : b.HasStored records)
    (hfits : ∀ record ∈ records,
      (Codec.encodeLocation (record.location.rebind record.range.toSpan)).length < 2 ^ 32)
    (hfinish : (b.finish later).1 = .ok database) (asked : List Address) {a : Address}
    {location : Location} :
    (database.after asked).answer a = some location ↔ ∃ record ∈ records,
      record.range.contains a = true ∧ location = record.location.rebind record.range.toSpan := by
  have hasc : Span.Ascending ((records.map entryOf).map Entry.span) := by
    rw [List.map_map]
    exact h.ascending
  have hret : ∀ e ∈ records.map entryOf, e.Retrievable := by
    intro e he
    obtain ⟨record, hrecord, rfl⟩ := List.mem_map.1 he
    exact ⟨rfl, hfits record hrecord⟩
  have hone : ∀ record, records.filter (·.range.contains a) = [record] ↔
      record ∈ records ∧ record.range.contains a = true := by
    intro record
    have hfilter := h.ascending.filter_contains a
    have hmem : record ∈ records.filter (·.range.contains a) ↔
        record ∈ records ∧ record.range.contains a = true := List.mem_filter
    rw [← hmem, hfilter]
    cases records.find? fun r => r.range.contains a <;> simp [eq_comm]
  rw [((h.holds_of_finish hfinish).after hasc hret asked).answer_eq hasc hret,
    answerOf_eq_some_iff h.ascending]
  simp only [hone, and_assoc]

/-- **A build that is finished answers by the records it stored, wherever they are kept.**  An
address gets the location of the one record stored that covers it, bound to the range of that
record, or nothing if there is none, whatever was looked up before; and no sequence of lookups tells
the database from one that was built from the same calls with another storage. -/
theorem answer_of_finish (hstart : (start disk provider storage listener state).1 = .ok b)
    (hfits : ∀ record ∈ Record.inserted (recordsOf results),
      (Codec.encodeLocation (record.location.rebind record.range.toSpan)).length < 2 ^ 32)
    (hfinish : ((b.takeAll results).finish later).1 = .ok database) :
    (b.takeAll results).HasStored (Record.inserted (recordsOf results)) ∧
      (∀ asked a location, (database.after asked).answer a = some location ↔
        ∃ record, (Record.inserted (recordsOf results)).filter (·.range.contains a) = [record] ∧
          location = record.location.rebind record.range.toSpan) ∧
      (∀ asked a, (database.after asked).answer a = none ↔
        ∀ record ∈ Record.inserted (recordsOf results), ¬ record.range.contains a = true) ∧
      (∀ asked, (database.after asked).rangeCount? =
        some (Record.inserted (recordsOf results)).length) ∧
      ∀ storage' database', Builds storage' results database' →
        ∀ asked, database'.answers asked = database.answers asked := by
  have hstored := hasStored_takeAll hstart results
  have hholds := hstored.holds_of_finish hfinish
  have hasc : Span.Ascending
      (((Record.inserted (recordsOf results)).map entryOf).map Entry.span) := by
    rw [List.map_map]
    exact hstored.ascending
  have hret : ∀ e ∈ (Record.inserted (recordsOf results)).map entryOf, e.Retrievable := by
    intro e he
    obtain ⟨record, hrecord, rfl⟩ := List.mem_map.1 he
    exact ⟨rfl, hfits record hrecord⟩
  refine ⟨hstored, fun asked a location => ?_, fun asked a => ?_, fun asked => ?_, ?_⟩
  · rw [(hholds.after hasc hret asked).answer_eq hasc hret]
    exact answerOf_eq_some_iff hstored.ascending
  · rw [(hholds.after hasc hret asked).answer_eq hasc hret]
    exact answerOf_eq_none_iff
  · rw [(hholds.after hasc hret asked).rangeCount?_eq, List.length_map]
  · intro storage' database' hbuilds asked
    rw [hbuilds.holds.answers_eq hasc hret, hholds.answers_eq hasc hret]

/-- Of two records with a gap between them the first is bound to another range, a third overlaps it
and is passed over, and a fourth is of the other family.  The index file answers with a cache as the
records that were stored say, and nothing in the gap or behind the last. -/
theorem answer_of_finish_gap :
    ∃ (low overlapping high six : Record) (gap behind : Address) (b : Builder Unit)
      (database : Database),
      low.location.span ≠ low.range.toSpan ∧ overlapping.range.first ≤ low.range.last ∧
        low.range.last < gap ∧ gap < high.range.first ∧ high.range.family ≠ six.range.family ∧
        six.range.last < behind ∧
        (start {} .ip2location (.file ⟨"ranges.idx"⟩ 1) .skipping ()).1 = .ok b ∧
        ((b.takeAll [.ok low, .ok overlapping, .ok high, .ok six]).finish
          (start {} .ip2location (.file ⟨"ranges.idx"⟩ 1) Listener.skipping ()).2).1 =
            .ok database ∧
        ∀ asked, (database.after asked).rangeCount? = some 3 ∧
          (∀ record ∈ [low, high, six], (database.after asked).answer record.range.last =
            some (record.location.rebind record.range.toSpan)) ∧
          ∀ a ∈ [gap, behind], (database.after asked).answer a = none := by
  let four (n : Fin 256) : Address := ⟨.v4, n, Nat.lt_trans n.isLt (by decide)⟩
  let six (n : Fin 256) : Address := ⟨.v6, n, Nat.lt_trans n.isLt (by decide)⟩
  let low : Record :=
    ⟨⟨⟨four 4, four 6⟩, by decide⟩, { span := ⟨four 5, six 0⟩, city := some "x" }, ⟨1, "4,6"⟩⟩
  let overlapping : Record :=
    ⟨⟨⟨four 6, four 7⟩, by decide⟩, { span := ⟨four 6, four 7⟩ }, ⟨2, "6,7"⟩⟩
  let high : Record := ⟨.single (four 9), { span := ⟨four 9, four 9⟩ }, ⟨3, "9,9"⟩⟩
  let last : Record := ⟨⟨⟨six 0, six 2⟩, by decide⟩, { span := ⟨six 0, six 2⟩ }, ⟨4, "::,::2"⟩⟩
  let results : List (Except ParseError Record) := [.ok low, .ok overlapping, .ok high, .ok last]
  have hbuilt : ((start {} .ip2location (.file ⟨"ranges.idx"⟩ 1)
      Listener.skipping ()).1.toOption.bind fun b =>
        ((b.takeAll results).finish (start {} .ip2location (.file ⟨"ranges.idx"⟩ 1)
          Listener.skipping ()).2).1.toOption).isSome = true := by
    decide +kernel
  obtain ⟨database, hbuilt⟩ := Option.isSome_iff_exists.1 hbuilt
  obtain ⟨b, hstart, hfinish⟩ := Option.bind_eq_some_iff.1 hbuilt
  have hstored : Record.inserted (recordsOf results) = [low, high, last] := by decide +kernel
  obtain ⟨-, hsome, hnone, hcount, -⟩ := answer_of_finish (eq_ok_of_toOption hstart)
    (by rw [hstored]; decide +kernel) (eq_ok_of_toOption hfinish)
  rw [hstored] at hsome hnone hcount
  refine ⟨low, overlapping, high, last, four 8, six 3, b, database, by decide, by decide, by decide,
    by decide, by decide, by decide, eq_ok_of_toOption hstart, eq_ok_of_toOption hfinish,
    fun asked => ⟨hcount asked, ?_, ?_⟩⟩
  · have hfound : ∀ record ∈ [low, high, last],
        [low, high, last].filter (·.range.contains record.range.last) = [record] := by decide
    exact fun record hrecord => (hsome asked _ _).2 ⟨record, hfound record hrecord, rfl⟩
  · have hopen : ∀ a ∈ [four 8, six 3], ∀ record ∈ [low, high, last],
        ¬ record.range.contains a = true := by decide
    exact fun a ha => (hnone asked a).2 (hopen a ha)

end Builder

end IpAtlas
