import IpAtlas.Proofs.Builder
import IpAtlas.Proofs.Ingest
import Mathlib.Data.List.Induction

/-!
# Which records are accepted

A builder compares a record with the end of the last one it stored, and with nothing else.  That is
enough.  What it stores ascends, so a record that starts after the last range starts after all of
them, and what is stored is the greedy choice from what was offered.  A record that is refused is
forgotten: nothing of the builder tells that it was offered, but for the count of records passed
over, and that only if the listener does so.

## What is here

* `Record.Greedy`, `Record.greedy_iff` — the greedy choice is what is stored.
* `Record.follows_iff` — which records follow.
* `Builder.Fate`, `Builder.fates` — what becomes of the results of some lines.
* `Builder.Accepts`, `Builder.Refuses`, `Builder.Reports` — what a builder does with the next result.
* `Builder.Ordered`, `Builder.ordered_of_start` — what is known of every builder, whatever its
  listener and its storage are and whatever it was given.
-/

set_option autoImplicit false

namespace IpAtlas

/-! ## The greedy choice -/

namespace Record

/-- The greedy choice from some records: one is kept if it starts after everything that was kept
before, and passed by if it starts at or before the end of something that was. -/
inductive Greedy : List Record → List Record → Prop
  | nil : Greedy [] []
  | keep {records kept : List Record} {record : Record} (h : Greedy records kept)
      (hafter : ∀ earlier ∈ kept, earlier.range.last < record.range.first) :
      Greedy (records ++ [record]) (kept ++ [record])
  | pass {records kept : List Record} {record : Record} (h : Greedy records kept)
      (hnot : ∃ earlier ∈ kept, record.range.first ≤ earlier.range.last) :
      Greedy (records ++ [record]) kept

/-- A record follows if its range lies behind the last one: above it in its family, or in IPv6 where
that one is in IPv4. -/
theorem follows_iff {kept : List Record} {record : Record} :
    Follows kept record ↔ ∀ last ∈ kept.getLast?,
      (last.range.last.family = .v4 ∧ record.range.first.family = .v6) ∨
        (last.range.last.family = record.range.first.family ∧
          last.range.last.value < record.range.first.value) :=
  forall₂_congr fun _ _ => Address.lt_iff

theorem inserted_concat (records : List Record) (record : Record) :
    inserted (records ++ [record]) = insertInto (inserted records) record := by
  rw [inserted, List.foldl_append]
  rfl

/-- A record that is not stored is as good as not offered. -/
theorem inserted_of_not_follows {front : List Record} {record : Record}
    (hnot : ¬ Follows (inserted front) record) (back : List Record) :
    inserted (front ++ record :: back) = inserted (front ++ back) := by
  have hskip : inserted (front ++ [record]) = inserted front := by
    rw [inserted_concat, insertInto, if_neg hnot]
  rw [List.append_cons, inserted, List.foldl_append, ← inserted, hskip, inserted, inserted,
    List.foldl_append]

/-- A record that follows the last of ascending ones starts after all of them. -/
theorem follows_iff_forall {kept : List Record} {record : Record}
    (hasc : Span.Ascending (kept.map (·.range.toSpan))) :
    Follows kept record ↔ ∀ earlier ∈ kept, earlier.range.last < record.range.first := by
  refine ⟨fun h earlier hmem => ?_, fun h last hlast => h last (List.mem_of_getLast? hlast)⟩
  have hconcat := Span.ascending_concat hasc record.range.valid (by
    intro t ht
    rw [List.getLast?_map] at ht
    obtain ⟨last, hlast, rfl⟩ := Option.map_eq_some_iff.1 ht
    exact h last hlast)
  exact (Span.ascending_append.1 hconcat).2.2 _ (List.mem_map_of_mem hmem) _ (by simp)

theorem ascending_insertInto {kept : List Record}
    (hasc : Span.Ascending (kept.map (·.range.toSpan))) (record : Record) :
    Span.Ascending ((insertInto kept record).map (·.range.toSpan)) := by
  rw [insertInto]
  split
  · rename_i hfollows
    rw [List.map_append]
    refine Span.ascending_append.2 ⟨hasc, ?_, ?_⟩
    · exact Span.ascending_cons.2 ⟨record.range.valid, by simp, Span.ascending_nil⟩
    · intro s hs t ht
      obtain ⟨earlier, hmem, rfl⟩ := List.mem_map.1 hs
      obtain rfl : t = record.range.toSpan := by simpa using ht
      exact (follows_iff_forall hasc).1 hfollows earlier hmem
  · exact hasc

theorem ascending_inserted (records : List Record) :
    Span.Ascending ((inserted records).map (·.range.toSpan)) := by
  induction records using List.reverseRecOn with
  | nil => exact Span.ascending_nil
  | append_singleton records record ih =>
    rw [inserted_concat]
    exact ascending_insertInto ih record

/-- **What is stored is the greedy choice**, and there is no other. -/
theorem greedy_iff {records kept : List Record} :
    Greedy records kept ↔ kept = inserted records := by
  constructor
  · intro h
    induction h with
    | nil => rfl
    | @keep records kept record _ hafter ih =>
      subst ih
      rw [inserted_concat, insertInto,
        if_pos ((follows_iff_forall (ascending_inserted records)).2 hafter)]
    | @pass records kept record _ hnot ih =>
      subst ih
      obtain ⟨earlier, hmem, hle⟩ := hnot
      rw [inserted_concat, insertInto, if_neg]
      intro hfollows
      have hlt := (follows_iff_forall (ascending_inserted records)).1 hfollows earlier hmem
      exact Address.not_le.2 hlt hle
  · rintro rfl
    induction records using List.reverseRecOn with
    | nil => exact .nil
    | append_singleton records record ih =>
      rw [inserted_concat, insertInto]
      have hiff : Follows (inserted records) record ↔ _ :=
        follows_iff_forall (ascending_inserted records)
      split
      · rename_i hfollows
        exact .keep ih (hiff.1 hfollows)
      · rename_i hnot
        rw [hiff] at hnot
        push Not at hnot
        obtain ⟨earlier, hmem, hlt⟩ := hnot
        exact .pass ih ⟨earlier, hmem, Address.not_lt.1 hlt⟩

end Record

/-! ## One result -/

/-- Whether a notification is of a record that was stored. -/
def Notification.isAdded : Notification → Bool
  | added .. => true
  | _ => false

namespace Builder

variable {σ : Type}

/-- What becomes of the result of a line. -/
inductive Fate where
  /-- It is a record that was stored. -/
  | stored
  /-- It is a record out of order, and the listener passed over it. -/
  | passedOver
  /-- It is a record out of order, and the listener answered with an error. -/
  | refused
  /-- It is no record. -/
  | unparseable
  deriving DecidableEq

/-- What becomes of a result, told by what was kept before and by what was answered. -/
def fateOf (kept : List Record) (answer : Except Error Unit) : LineResult → Fate
  | .error _ => .unparseable
  | .ok record =>
    if Record.Follows kept record then .stored
    else if answer.isOk then .passedOver
    else .refused

/-- What becomes of the results of some lines, the first of which comes when some records are
kept. -/
def fates (b : Builder σ) (kept : List Record) : List LineResult → List Fate
  | [] => []
  | result :: results =>
    fateOf kept (b.take result).result result ::
      fates (b.take result).builder ((recordsOf [result]).foldl Record.insertInto kept) results

section

variable {b : Builder (σ × List Notification)} {provider : Provider} {listener : Listener σ}
  {kept : List Record} {record : Record}

/-- A record is stored and the listener is told: the bound moves to its end, and a counter by one. -/
structure Accepts (b : Builder (σ × List Notification)) (record : Record) : Prop where
  result_eq : (b.insert record).result = .ok ()
  stored_eq : (b.insert record).builder.stored = b.stored ++ [entryOf record]
  told_eq : (b.insert record).builder.state.2 = b.state.2 ++ [.added b.provider record]
  builder_eq : (b.insert record).builder =
    { b with
      state := (b.insert record).builder.state
      phase := (b.insert record).builder.phase
      last := some record.range.last
      counts := { b.counts with inserted := b.counts.inserted + 1 } }

/-- A record is left to the listener, because it does not start after `last`. -/
structure Refuses (b : Builder (σ × List Notification)) (listener : Listener σ) (last : Address)
    (record : Record) : Prop where
  /-- The listener is told the cause, and what it answers is the answer. -/
  result_eq : (b.insert record).result = (listener.outOfOrder b.state.1 b.provider record.line
    (.outOfOrder b.provider record.line.number last record.range.first)).1
  told_eq : (b.insert record).builder.state.2 = b.state.2 ++ [.outOfOrder b.provider record.line
    (.outOfOrder b.provider record.line.number last record.range.first)]
  /-- If it passes over the record, one counter moves, and nothing else but its own state. -/
  passed : (b.insert record).result = .ok () →
    (b.insert record).builder =
      { b with
        state := (b.insert record).builder.state
        counts := { b.counts with skipped := b.counts.skipped + 1 } }
  /-- If it does not, nothing but its own state does. -/
  forgotten : ∀ e, (b.insert record).result = .error e →
    (b.insert record).builder = { b with state := (b.insert record).builder.state }

/-- A line that is no record: one counter moves, and the listener is told and answers. -/
structure Reports (b : Builder (σ × List Notification)) (listener : Listener σ) (e : ParseError) :
    Prop where
  result_eq : (b.reportParseError e).result = (listener.parseFailed b.state.1 b.provider e).1
  told_eq : (b.reportParseError e).builder.state.2 = b.state.2 ++ [.parseFailed b.provider e]
  builder_eq : (b.reportParseError e).builder =
    { b with
      state := (b.reportParseError e).builder.state
      counts := { b.counts with unparseable := b.counts.unparseable + 1 } }

/-- What is left of a record that is left to the listener: the state of the listener, and a count if
it passes over the record. -/
theorem builder_refuse {σ : Type} (b : Builder σ) (last : Address) (record : Record) :
    (b.refuse last record).builder =
      { b with
        state := (b.refuse last record).builder.state
        counts := match (b.refuse last record).result with
          | .ok () => { b.counts with skipped := b.counts.skipped + 1 }
          | .error _ => b.counts } :=
  rfl

theorem HasStored.accepts (h : b.HasStored kept) (hlistener : b.listener = listener.logged)
    (hfollows : Record.Follows kept record) : b.Accepts record := by
  obtain ⟨draft, hinsert, hstored⟩ := h.insert_of_follows hfollows
  have hafter := hstored.stored_eq
  rw [List.map_append, ← h.stored_eq] at hafter
  refine ⟨by rw [hinsert]; rfl, hafter, ?_, by rw [hinsert]; rfl⟩
  rw [hinsert, Builder.accept, hlistener]
  rfl

theorem HasStored.refuses (h : b.HasStored kept) (hlistener : b.listener = listener.logged)
    (hnot : ¬ Record.Follows kept record) :
    ∃ last, kept.getLast? = some last ∧ b.Refuses listener last.range.last record := by
  obtain ⟨draft, hphase, -⟩ := h.collecting
  obtain ⟨bound, hbound⟩ := Option.ne_none_iff_exists'.1 (h.obstacle?_eq_none_iff.not.2 hnot)
  have hinsert : b.insert record = b.refuse bound record := by
    rw [Builder.insert, hphase, hbound]
  rw [obstacle?, h.last, Option.filter_eq_some_iff] at hbound
  obtain ⟨last, hlast, rfl⟩ := Option.map_eq_some_iff.1 hbound.1
  have hleft := builder_refuse b last.range.last record
  rw [← hinsert] at hleft
  refine ⟨last, hlast, ?_, ?_, fun hok => ?_, fun e herror => ?_⟩
  · rw [hinsert, Builder.refuse, hlistener]
    rfl
  · rw [hinsert, Builder.refuse, hlistener]
    rfl
  · rwa [hok] at hleft
  · rwa [herror] at hleft

theorem HasStored.reports (h : b.HasStored kept) (hlistener : b.listener = listener.logged)
    (e : ParseError) : b.Reports listener e := by
  obtain ⟨draft, hphase, -⟩ := h.collecting
  obtain ⟨provider', storage, listener', ⟨state, log⟩, phase, last, counts⟩ := b
  obtain rfl : listener' = listener.logged := hlistener
  obtain rfl : phase = .collecting draft := hphase
  exact ⟨rfl, rfl, rfl⟩

end

/-! ## Any number of results -/

section

variable {b : Builder (σ × List Notification)} {provider : Provider} {listener : Listener σ}
  {kept : List Record} {results : List LineResult}

theorem takeAll_concat {σ : Type} (b : Builder σ) (results : List LineResult)
    (result : LineResult) :
    b.takeAll (results ++ [result]) = ((b.takeAll results).take result).builder := by
  rw [takeAll, List.foldl_append]
  rfl

theorem recordsOf_append (front back : List LineResult) :
    recordsOf (front ++ back) = recordsOf front ++ recordsOf back :=
  List.filterMap_append

theorem fates_concat {σ : Type} (b : Builder σ) (kept : List Record) (results : List LineResult)
    (result : LineResult) :
    b.fates kept (results ++ [result]) = b.fates kept results ++
      [fateOf ((recordsOf results).foldl Record.insertInto kept)
        ((b.takeAll results).take result).result result] := by
  induction results generalizing b kept with
  | nil => rfl
  | cons first results ih =>
    rw [List.cons_append, fates, ih, fates, ← List.foldl_append, ← recordsOf_append]
    rfl

/-- The counts when something has become of one more result. -/
def count (counts : Counts) : Fate → Counts
  | .stored => { counts with inserted := counts.inserted + 1 }
  | .passedOver => { counts with skipped := counts.skipped + 1 }
  | .refused => counts
  | .unparseable => { counts with unparseable := counts.unparseable + 1 }

theorem foldl_count (fates : List Fate) (counts : Counts) :
    fates.foldl count counts =
      ⟨counts.inserted + fates.count .stored, counts.skipped + fates.count .passedOver,
        counts.unparseable + fates.count .unparseable⟩ := by
  induction fates generalizing counts with
  | nil => rfl
  | cons fate fates ih =>
    rw [List.foldl_cons, ih]
    cases fate <;> simp [count] <;> omega

/-- What a builder has noted when it has taken some results, of whose records some are kept. -/
structure Noted (provider : Provider) (listener : Listener σ) (kept : List Record)
    (fates : List Fate) (b : Builder (σ × List Notification)) : Prop where
  provider_eq : b.provider = provider
  listener_eq : b.listener = listener.logged
  counts_eq : b.counts = fates.foldl count {}
  told_eq : b.state.2.filter Notification.isAdded = kept.map (.added provider)

theorem Noted.concat {fates : List Fate} {fate : Fate} {kept' : List Record}
    {b' : Builder (σ × List Notification)} (h : b.Noted provider listener kept fates)
    (hbuilder : ∃ state phase last,
      b' = { b with state, phase, last, counts := count b.counts fate })
    (htold : b'.state.2.filter Notification.isAdded = kept'.map (.added provider)) :
    b'.Noted provider listener kept' (fates ++ [fate]) := by
  obtain ⟨state, phase, last, rfl⟩ := hbuilder
  refine ⟨h.provider_eq, h.listener_eq, ?_, htold⟩
  rw [List.foldl_append, ← h.counts_eq]
  rfl

theorem Noted.insert {fates : List Fate} (h : b.Noted provider listener kept fates)
    (hstored : b.HasStored kept) (record : Record) :
    (b.insert record).builder.Noted provider listener (Record.insertInto kept record)
      (fates ++ [fateOf kept (b.insert record).result (.ok record)]) := by
  rw [Record.insertInto, fateOf]
  by_cases hfollows : Record.Follows kept record
  · have haccepts := hstored.accepts h.listener_eq hfollows
    rw [if_pos hfollows, if_pos hfollows]
    refine h.concat ⟨_, _, _, haccepts.builder_eq⟩ ?_
    rw [haccepts.told_eq, List.filter_append, h.told_eq, h.provider_eq, List.map_append]
    rfl
  · obtain ⟨last, -, hrefuses⟩ := hstored.refuses h.listener_eq hfollows
    have htold : (b.insert record).builder.state.2.filter Notification.isAdded =
        kept.map (.added provider) := by
      rw [hrefuses.told_eq, List.filter_append, h.told_eq]
      exact List.append_nil _
    rw [if_neg hfollows, if_neg hfollows]
    cases hresult : (b.insert record).result with
    | ok => exact h.concat ⟨_, _, _, hrefuses.passed hresult⟩ htold
    | error e => exact h.concat ⟨_, _, _, hrefuses.forgotten e hresult⟩ htold

theorem Noted.reportParseError {fates : List Fate} (h : b.Noted provider listener kept fates)
    (hstored : b.HasStored kept) (e : ParseError) :
    (b.reportParseError e).builder.Noted provider listener kept (fates ++ [.unparseable]) := by
  have hreports := hstored.reports h.listener_eq e
  refine h.concat ⟨_, _, _, hreports.builder_eq⟩ ?_
  rw [hreports.told_eq, List.filter_append, h.told_eq]
  exact List.append_nil _

/-- **What is noted after any number of results.** -/
theorem Noted.takeAll (h : b.Noted provider listener [] []) (hstored : b.HasStored [])
    (results : List LineResult) :
    (b.takeAll results).Noted provider listener (Record.inserted (recordsOf results))
      (b.fates [] results) := by
  induction results using List.reverseRecOn with
  | nil => exact h
  | append_singleton results result ih =>
    have hstored' := hstored.takeAll results
    rw [takeAll_concat, fates_concat, recordsOf_append]
    cases result with
    | ok record =>
      rw [show recordsOf [Except.ok record] = [record] from rfl, Record.inserted_concat]
      exact ih.insert hstored' record
    | error e =>
      rw [show recordsOf [Except.error e] = [] from rfl, List.append_nil]
      exact ih.reportParseError hstored' e

/-- What is known of a builder when it has taken the results of some lines, of whose records some
are kept. -/
structure Ordered (provider : Provider) (listener : Listener σ) (kept : List Record)
    (fates : List Fate) (b : Builder (σ × List Notification)) : Prop where
  provider_eq : b.provider = provider
  /-- What is stored, in memory or for a file, is what is kept. -/
  stored_eq : b.stored = kept.map entryOf
  /-- It ascends, and no address is in two ranges. -/
  ascending : kept.Pairwise fun r s => r.range.last < s.range.first ∧
    ∀ a, ¬ (r.range.contains a = true ∧ s.range.contains a = true)
  /-- The bound is the end of the last range. -/
  last_eq : b.last = kept.getLast?.map (·.range.last)
  /-- Every counter counts one fate, the first of them what is kept, -/
  counts_eq : b.counts = ⟨fates.count .stored, fates.count .passedOver, fates.count .unparseable⟩
  inserted_eq : b.counts.inserted = kept.length
  /-- of which the listener was told record by record. -/
  told_eq : b.state.2.filter Notification.isAdded = kept.map (.added provider)
  /-- The builder goes on: the next record is stored if it follows, -/
  accepts : ∀ record, Record.Follows kept record → b.Accepts record
  /-- and otherwise it is left to the listener. -/
  refuses : ∀ record, ¬ Record.Follows kept record →
    ∃ last, kept.getLast? = some last ∧ b.Refuses listener last.range.last record
  reports : ∀ e, b.Reports listener e

theorem HasStored.ordered {fates : List Fate} (hstored : b.HasStored kept)
    (hnoted : b.Noted provider listener kept fates) : b.Ordered provider listener kept fates where
  provider_eq := hnoted.provider_eq
  stored_eq := hstored.stored_eq
  ascending := by
    refine (List.pairwise_map.1 hstored.ascending.2).imp fun {r s} hlt => ⟨hlt, ?_⟩
    rintro a ⟨hr, hs⟩
    exact Span.not_contains_of_last_lt hlt (Span.contains_iff.1 hs).1 hr
  last_eq := hstored.last
  counts_eq := by simpa using hnoted.counts_eq.trans (foldl_count fates {})
  inserted_eq := hstored.counted
  told_eq := hnoted.told_eq
  accepts := fun _ => hstored.accepts hnoted.listener_eq
  refuses := fun _ => hstored.refuses hnoted.listener_eq
  reports := hstored.reports hnoted.listener_eq

theorem length_fates {σ : Type} (b : Builder σ) (kept : List Record) (results : List LineResult) :
    (b.fates kept results).length = results.length := by
  induction results generalizing b kept with
  | nil => rfl
  | cons result results ih => rw [fates, List.length_cons, ih, List.length_cons]

/-- As many lines are counted as no records as there are. -/
theorem count_unparseable_fates {σ : Type} (b : Builder σ) (kept : List Record)
    (results : List LineResult) :
    (b.fates kept results).count .unparseable = results.countP fun result => !result.isOk := by
  induction results generalizing b kept with
  | nil => rfl
  | cons result results ih =>
    rw [fates, List.count_cons, List.countP_cons, ih]
    cases result with
    | error e => rfl
    | ok record =>
      rw [fateOf]
      split
      · rfl
      · split <;> rfl

/-- Builders that store the same, compare the next record with the same, and count the same, but for
the records that were passed over. -/
structure Matches (b b' : Builder σ) : Prop where
  stored_eq : b.stored = b'.stored
  last_eq : b.last = b'.last
  inserted_eq : b.counts.inserted = b'.counts.inserted
  unparseable_eq : b.counts.unparseable = b'.counts.unparseable

variable {disk : Disk} {storage : Storage} {state : σ}

/-- **What every build stores, counts and tells.**  After any results of lines, what is stored is the
greedy choice from the records among them, every result has come to one fate and the counts are those
of the fates, and the next record is stored exactly if it starts behind the end of the last one
stored.  One that does not is forgotten: the build goes on as if it had not been offered. -/
theorem ordered_of_start
    (hstart : (start disk provider storage listener.logged (state, [])).1 = .ok b)
    (results : List LineResult) :
    (∀ kept record, Record.Follows kept record ↔ ∀ last ∈ kept.getLast?,
        (last.range.last.family = .v4 ∧ record.range.first.family = .v6) ∨
          (last.range.last.family = record.range.first.family ∧
            last.range.last.value < record.range.first.value)) ∧
      (∀ kept, Record.Greedy (recordsOf results) kept ↔
        kept = Record.inserted (recordsOf results)) ∧
      (b.takeAll results).Ordered provider listener (Record.inserted (recordsOf results))
        (b.fates [] results) ∧
      (b.fates [] results).length = results.length ∧
      ∀ record, ¬ Record.Follows (Record.inserted (recordsOf results)) record → ∀ more,
        (b.takeAll (results ++ .ok record :: more)).Matches (b.takeAll (results ++ more)) := by
  have hstored := hasStored_of_start hstart
  have hnoted : b.Noted provider listener [] [] := by
    obtain ⟨draft, -, rfl⟩ := exists_of_start hstart
    exact ⟨rfl, rfl, rfl, rfl⟩
  have hordered : ∀ results, (b.takeAll results).Ordered provider listener
      (Record.inserted (recordsOf results)) (b.fates [] results) :=
    fun results => (hstored.takeAll results).ordered (hnoted.takeAll hstored results)
  refine ⟨fun _ _ => Record.follows_iff, fun _ => Record.greedy_iff, hordered results,
    length_fates b [] results, ?_⟩
  intro record hnot more
  have hsame : Record.inserted (recordsOf (results ++ .ok record :: more)) =
      Record.inserted (recordsOf (results ++ more)) := by
    rw [recordsOf_append, recordsOf_append]
    exact Record.inserted_of_not_follows hnot (recordsOf more)
  have hwith := hordered (results ++ .ok record :: more)
  have hwithout := hordered (results ++ more)
  rw [hsame] at hwith
  refine ⟨hwith.stored_eq.trans hwithout.stored_eq.symm, hwith.last_eq.trans hwithout.last_eq.symm,
    hwith.inserted_eq.trans hwithout.inserted_eq.symm, ?_⟩
  rw [hwith.counts_eq, hwithout.counts_eq, count_unparseable_fates, count_unparseable_fates,
    List.countP_append, List.countP_append]
  rfl

/-- A build with an index file and a listener that fails: a record that overlaps the first one is
refused, a line is no record, and the build goes on with an IPv6 record, as it would have without
them. -/
theorem ordered_of_start_refused :
    ∃ (first overlapping sixth : Record) (e : ParseError) (b : Builder (Unit × List Notification)),
      (start {} .ip2location (.file ⟨"ranges.idx"⟩ 0) Listener.failFast.logged ((), [])).1 = .ok b ∧
        (b.takeAll [.ok first, .ok overlapping, .error e, .ok sixth]).Ordered .ip2location
          .failFast [first, sixth] [.stored, .refused, .unparseable, .stored] ∧
        (b.takeAll [.ok first, .ok overlapping, .error e, .ok sixth]).Matches
          (b.takeAll [.ok first, .error e, .ok sixth]) := by
  let four (n : Fin 100) : Address := ⟨.v4, n, Nat.lt_trans n.isLt (by decide)⟩
  let six : Address := ⟨.v6, 0, by decide⟩
  let first : Record :=
    ⟨⟨⟨four 10, four 20⟩, by decide⟩, { span := ⟨four 10, four 20⟩ }, ⟨1, "10,20"⟩⟩
  let overlapping : Record :=
    ⟨⟨⟨four 20, four 30⟩, by decide⟩, { span := ⟨four 20, four 30⟩ }, ⟨2, "20,30"⟩⟩
  let sixth : Record := ⟨.single six, { span := ⟨six, six⟩ }, ⟨4, "::"⟩⟩
  let e : ParseError := ⟨⟨3, ""⟩, .emptyLine⟩
  let results : List LineResult := [.ok first, .ok overlapping, .error e, .ok sixth]
  have hbegun : (start {} .ip2location (.file ⟨"ranges.idx"⟩ 0) Listener.failFast.logged
      ((), [])).1.toOption.any (fun b => b.fates [] results =
        [.stored, .refused, .unparseable, .stored]) = true := by
    decide +kernel
  obtain ⟨b, hstart, hfates⟩ := (Option.any_eq_true _ _).1 hbegun
  have hstart := eq_ok_of_toOption hstart
  have hkept : Record.inserted (recordsOf results) = [first, sixth] := by decide +kernel
  obtain ⟨-, -, hordered, -⟩ := ordered_of_start hstart results
  obtain ⟨-, -, -, -, hmatches⟩ := ordered_of_start hstart [.ok first]
  rw [hkept, of_decide_eq_true hfates] at hordered
  exact ⟨first, overlapping, sixth, e, b, hstart, hordered,
    hmatches overlapping (by decide +kernel) [.error e, .ok sixth]⟩

end

end Builder

end IpAtlas
