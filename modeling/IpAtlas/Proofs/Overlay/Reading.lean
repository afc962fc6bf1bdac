import IpAtlas.Proofs.Overlay.Track

/-!
# Reading a track call by call

Whoever reads a track may look at the next mark any number of times before taking it.  Looking gives
the mark that taking it would give, and changes nothing about what comes after; so what is taken are
the marks of the track one after the other, wherever they were looked at.  Once a call finds nothing,
every mark of the sources has been taken or was dropped.

A track is a merge that was written down beforehand.  Sources can also be merged as they are read,
with a mark in hand that was looked at and the end of the last one given out.  That answers every
call alike, drops the same marks and makes the same remarks.

## What is here

* `Track.Call`, `Track.answers`, `Track.taken` — calls, and what they give.
* `Track.Reads`, `Track.reads_marks` — what they give of the marks of a track.
* `Track.spent_of_answers` — a track on which a call has found nothing.
* `OnDemand`, `OnDemand.call_track` — sources merged as they are read.
* `Track.answers_ofSources` — the marks of sources, call by call.
-/

set_option autoImplicit false

namespace IpAtlas

variable {α : Type}

namespace Track

/-- What is asked of a track. -/
inductive Call where
  /-- To look at the next mark. -/
  | peek
  /-- To take it. -/
  | next
  deriving DecidableEq

/-- What a track gives to a call. -/
def call (t : Track α) : Call → Move α
  | .peek => t.peek
  | .next => t.next

/-- What a track answers to some calls. -/
def answers (t : Track α) : List Call → List (Option (Mark α))
  | [] => []
  | c :: calls => (t.call c).mark :: (t.call c).track.answers calls

/-- The marks that are taken in some calls. -/
def taken (t : Track α) : List Call → List (Mark α)
  | [] => []
  | .peek :: calls => t.peek.track.taken calls
  | .next :: calls => t.next.mark.toList ++ t.next.track.taken calls

/-- The track after some calls. -/
def afterCalls (t : Track α) (calls : List Call) : Track α :=
  calls.foldl (fun t c => (t.call c).track) t

/-- A track that gives out some marks: what is taken are the first of them, as many as are asked
for, and every call is answered by the next that is not taken yet. -/
def Reads (t : Track α) (marks : List (Mark α)) : Prop :=
  ∀ calls, t.taken calls = marks.take (calls.count .next) ∧
    ∀ i, i < calls.length →
      (t.answers calls)[i]? = some (marks[(calls.take i).count .next]?)

section

variable {t t' : Track α} {wanted : Mark α → Bool} {dropped : Nat} {events : List (Event α)}
  {c : Call} {calls : List Call}

/-! ## One call -/

theorem ahead_pull : (pull wanted dropped events).track.ahead = none := by
  induction events generalizing dropped with
  | nil => rfl
  | cons event events ih =>
    cases event with
    | kept m =>
      rw [pull]
      split
      · rfl
      · exact ih
    | dropped m last => exact ih
    | remark r => exact ih

/-- Nothing is passed over when every mark is wanted. -/
theorem dropWhile_all (marks : List (Mark α)) : marks.dropWhile (fun _ => !true) = marks := by
  cases marks <;> rfl

theorem call_peek (t : Track α) :
    (t.call .peek).mark = t.marks.head? ∧ (t.call .peek).track.marks = t.marks := by
  obtain ⟨hmarks, hmark, -⟩ := marks_lookFor (fun _ => true) t
  rw [dropWhile_all] at hmarks
  exact ⟨hmark.trans (congrArg _ hmarks), hmarks⟩

theorem call_next (t : Track α) :
    (t.call .next).mark = t.marks.head? ∧ (t.call .next).track.marks = t.marks.tail := by
  rw [call, next, marks]
  cases t.ahead with
  | some m => exact ⟨rfl, rfl⟩
  | none =>
    obtain ⟨hmark, hmarks⟩ := pull_eq (fun _ => true) t.dropped t.events
    rw [dropWhile_all] at hmark hmarks
    refine ⟨hmark, ?_⟩
    show (pull (fun _ => true) t.dropped t.events).track.marks = (keptOf t.events).tail
    rw [marks, ahead_pull]
    rw [hmark] at hmarks
    cases hkept : keptOf t.events with
    | nil =>
      rw [hkept] at hmarks
      exact hmarks
    | cons m kept =>
      rw [hkept] at hmarks
      exact (List.cons.inj hmarks).2

/-! ## Some calls -/

theorem answers_eq (t : Track α) (calls : List Call) {i : Nat} (hi : i < calls.length) :
    (t.answers calls)[i]? = some (t.marks[(calls.take i).count .next]?) := by
  induction calls generalizing t i with
  | nil => exact absurd hi (Nat.not_lt_zero i)
  | cons c calls ih =>
    cases i with
    | zero =>
      have hmark : (t.call c).mark = t.marks.head? := by
        cases c with
        | peek => exact (call_peek t).1
        | next => exact (call_next t).1
      rw [answers, hmark, List.head?_eq_getElem?]
      rfl
    | succ i =>
      rw [answers, List.getElem?_cons_succ, ih _ (Nat.lt_of_succ_lt_succ hi), List.take_succ_cons]
      cases c with
      | peek => rw [(call_peek t).2, List.count_cons_of_ne (by decide)]
      | next => rw [(call_next t).2, List.count_cons_self, List.getElem?_tail]

theorem taken_eq (t : Track α) (calls : List Call) :
    t.taken calls = t.marks.take (calls.count .next) := by
  induction calls generalizing t with
  | nil => rfl
  | cons c calls ih =>
    cases c with
    | peek =>
      rw [taken, ih, List.count_cons_of_ne (by decide)]
      exact congrArg _ (call_peek t).2
    | next =>
      obtain ⟨hmark, hmarks⟩ : t.next.mark = t.marks.head? ∧ t.next.track.marks = t.marks.tail :=
        call_next t
      rw [taken, ih, hmark, hmarks, List.count_cons_self]
      cases t.marks with
      | nil => rw [List.tail_nil, List.take_nil, List.take_nil]; rfl
      | cons m marks => rfl

theorem marks_afterCalls (t : Track α) (calls : List Call) :
    (t.afterCalls calls).marks = t.marks.drop (calls.count .next) := by
  induction calls generalizing t with
  | nil => rfl
  | cons c calls ih =>
    refine (ih (t.call c).track).trans ?_
    cases c with
    | peek => rw [(call_peek t).2, List.count_cons_of_ne (by decide)]
    | next => rw [(call_next t).2, List.count_cons_self, List.drop_tail]

/-- **A track gives out its marks.** -/
theorem reads_marks (t : Track α) : t.Reads t.marks :=
  fun calls => ⟨taken_eq t calls, fun _ hi => answers_eq t calls hi⟩

/-- What a track answers depends on its marks only. -/
theorem answers_congr (h : t.marks = t'.marks) (calls : List Call) :
    t.answers calls = t'.answers calls := by
  induction calls generalizing t t' with
  | nil => rfl
  | cons c calls ih =>
    cases c with
    | peek =>
      rw [answers, answers, (call_peek t).1, (call_peek t').1, h,
        ih ((call_peek t).2.trans (h.trans (call_peek t').2.symm))]
    | next =>
      have htail : (t.call .next).track.marks = (t'.call .next).track.marks := by
        rw [(call_next t).2, (call_next t').2, h]
      rw [answers, answers, (call_next t).1, (call_next t').1, h, ih htail]

/-! ## What is dropped -/

theorem dropped_pull :
    (pull wanted dropped events).track.dropped + dropsOf (pull wanted dropped events).track.events =
      dropped + dropsOf events := by
  induction events generalizing dropped with
  | nil => rfl
  | cons event events ih =>
    cases event with
    | kept m =>
      rw [pull]
      split
      · rfl
      · exact ih
    | dropped m last =>
      have hdrops : dropsOf (.dropped m last :: events) = dropsOf events + 1 :=
        List.countP_cons_of_pos rfl
      rw [hdrops]
      have hrest := @ih (dropped + 1)
      rw [pull]
      dsimp only
      omega
    | remark r => exact ih

/-- A mark that was dropped or is to be dropped stays so. -/
theorem dropped_call (t : Track α) (c : Call) :
    (t.call c).track.dropped + dropsOf (t.call c).track.events = t.dropped + dropsOf t.events := by
  cases c with
  | peek =>
    rw [call, peek, lookFor]
    split
    · rfl
    · exact dropped_pull
  | next =>
    rw [call, next]
    split
    · rfl
    · exact dropped_pull

theorem dropped_afterCalls (t : Track α) (calls : List Call) :
    (t.afterCalls calls).dropped + dropsOf (t.afterCalls calls).events =
      t.dropped + dropsOf t.events := by
  induction calls generalizing t with
  | nil => rfl
  | cons c calls ih => exact (ih (t.call c).track).trans (dropped_call t c)

/-! ## When nothing is left -/

/-- A track on which nothing is to happen any more. -/
def Spent (t : Track α) : Prop := t.events = [] ∧ t.ahead = none

theorem events_of_pull (h : (pull (fun _ => true) dropped events).mark = none) :
    (pull (fun _ => true) dropped events).track.events = [] := by
  induction events generalizing dropped with
  | nil => rfl
  | cons event events ih =>
    cases event with
    | kept m => exact nomatch h
    | dropped m last => exact ih h
    | remark r => exact ih h

theorem spent_of_call (h : (t.call c).mark = none) : (t.call c).track.Spent := by
  cases hahead : t.ahead with
  | some m =>
    cases c with
    | peek =>
      rw [call, peek, lookFor, if_pos (by rw [hahead]; rfl), hahead] at h
      cases h
    | next =>
      rw [call, next, hahead] at h
      cases h
  | none =>
    cases c with
    | peek =>
      rw [call, peek, lookFor, if_neg (by rw [hahead]; exact Bool.false_ne_true)] at h ⊢
      exact ⟨events_of_pull h, h⟩
    | next =>
      rw [call, next, hahead] at h ⊢
      exact ⟨events_of_pull h, ahead_pull⟩

theorem Spent.call (h : t.Spent) (c : Call) : (t.call c).track.Spent := by
  obtain ⟨events, ahead, dropped⟩ := t
  obtain ⟨rfl, rfl⟩ : events = [] ∧ ahead = none := h
  cases c with
  | peek => exact ⟨rfl, rfl⟩
  | next => exact ⟨rfl, rfl⟩

theorem Spent.afterCalls (h : t.Spent) (calls : List Call) : (t.afterCalls calls).Spent := by
  induction calls generalizing t with
  | nil => exact h
  | cons c calls ih => exact ih (h.call c)

/-- Where a call has found nothing, nothing is left. -/
theorem spent_of_answers (h : none ∈ t.answers calls) : (t.afterCalls calls).Spent := by
  induction calls generalizing t with
  | nil => exact nomatch h
  | cons c calls ih =>
    rcases List.mem_cons.1 h with hmark | h
    · exact (spent_of_call hmark.symm).afterCalls calls
    · exact ih h

/-- **Where a call has found nothing, every mark is taken**, and what was to be dropped is. -/
theorem taken_of_answers (h : none ∈ t.answers calls) :
    t.taken calls = t.marks ∧ (t.afterCalls calls).dropped = t.dropped + dropsOf t.events := by
  obtain ⟨hevents, hahead⟩ := spent_of_answers h
  have hleft : (t.afterCalls calls).marks = [] := by
    rw [marks, hevents, hahead]
    rfl
  have hcount := dropped_afterCalls t calls
  rw [marks_afterCalls] at hleft
  rw [hevents] at hcount
  exact ⟨by rw [taken_eq, List.take_of_length_le (List.drop_eq_nil_iff.1 hleft)], hcount⟩

end

end Track

/-! ## Merging as one reads -/

/-- Sources that are merged as they are read. -/
structure OnDemand (α : Type) where
  sources : List (List (Item α))
  /-- The mark that was looked at and not taken. -/
  ahead : Option (Mark α) := none
  /-- The end of the last mark that was not dropped. -/
  last : Option Address := none
  /-- How many marks were dropped so far. -/
  dropped : Nat := 0

namespace OnDemand

open Track (Call)

/-- The next mark that starts after the end of the last one, with the remarks made on the way. -/
def pull (r : OnDemand α) : Option (Mark α) × OnDemand α × Journal :=
  match h : Track.takeLeast (Track.fromMarks r.sources) with
  | none => (none, { r with sources := Track.fromMarks r.sources }, Track.leadingRemarks r.sources)
  | some (m, sources) =>
    have : Track.total sources < Track.total r.sources := by
      have h1 := Track.total_takeLeast h
      have h2 := Track.total_fromMarks r.sources
      omega
    match r.last.filter fun last => m.span.first ≤ last with
    | none =>
      (some m, { r with sources, last := some m.span.last }, Track.leadingRemarks r.sources)
    | some last =>
      let (mark, r', remarks) := pull { r with sources, dropped := r.dropped + 1 }
      (mark, r', Track.leadingRemarks r.sources ++ Track.dropWarning m last :: remarks)
  termination_by Track.total r.sources

/-- Looks at the next mark. -/
def peek (r : OnDemand α) : Option (Mark α) × OnDemand α × Journal :=
  match r.ahead with
  | some m => (some m, r, [])
  | none =>
    let (mark, r, remarks) := r.pull
    (mark, { r with ahead := mark }, remarks)

/-- Takes the next mark. -/
def next (r : OnDemand α) : Option (Mark α) × OnDemand α × Journal :=
  match r.ahead with
  | some m => (some m, { r with ahead := none }, [])
  | none => r.pull

/-- What sources give to a call. -/
def call (r : OnDemand α) : Call → Option (Mark α) × OnDemand α × Journal
  | .peek => r.peek
  | .next => r.next

/-- What sources answer to some calls. -/
def answers (r : OnDemand α) : List Call → List (Option (Mark α))
  | [] => []
  | c :: calls => (r.call c).1 :: (r.call c).2.1.answers calls

/-- The sources after some calls. -/
def afterCalls (r : OnDemand α) (calls : List Call) : OnDemand α :=
  calls.foldl (fun r c => (r.call c).2.1) r

/-- The merge of what is left, written down. -/
def track (r : OnDemand α) : Track α where
  events := Track.merge r.last r.sources
  ahead := r.ahead
  dropped := r.dropped

section

variable {sources sources' : List (List (Item α))} {m : Mark α} {r : OnDemand α}

theorem fromMarks_fromMarks (sources : List (List (Item α))) :
    Track.fromMarks (Track.fromMarks sources) = Track.fromMarks sources := by
  rw [Track.fromMarks, Track.fromMarks, List.map_map]
  refine List.map_congr_left fun source _ => ?_
  show (source.dropWhile Item.isRemark).dropWhile Item.isRemark = source.dropWhile Item.isRemark
  rcases Track.dropWhile_isRemark source with hnil | ⟨m, items, hitems⟩
  · rw [hnil]
    rfl
  · rw [hitems]
    rfl

theorem leadingRemarks_fromMarks (sources : List (List (Item α))) :
    Track.leadingRemarks (Track.fromMarks sources) = [] := by
  refine List.flatMap_eq_nil_iff.2 fun source hsource => ?_
  obtain ⟨source, -, rfl⟩ := List.mem_map.1 hsource
  rcases Track.dropWhile_isRemark source with hnil | ⟨m, items, hitems⟩
  · rw [hnil]
    rfl
  · rw [hitems]
    rfl

/-- Sources from which nothing can be taken, and whose remarks have been made, have nothing left. -/
theorem merge_fromMarks (h : Track.takeLeast (Track.fromMarks sources) = none)
    (last : Option Address) : Track.merge last (Track.fromMarks sources) = [] := by
  rw [Track.merge_of_none (by rw [fromMarks_fromMarks]; exact h), leadingRemarks_fromMarks]
  rfl

theorem pull_remarks (wanted : Mark α → Bool) (dropped : Nat) (remarks : Journal)
    (events : List (Track.Event α)) :
    Track.pull wanted dropped (remarks.map .remark ++ events) =
      { Track.pull wanted dropped events with
        remarks := remarks ++ (Track.pull wanted dropped events).remarks } := by
  induction remarks with
  | nil => rfl
  | cons remark remarks ih =>
    show Track.pull wanted dropped (.remark remark :: (remarks.map .remark ++ events)) = _
    rw [Track.pull, ih]
    rfl

theorem filter_eq_none_iff {last : Option Address} :
    (last.filter fun last => m.span.first ≤ last) = none ↔ Track.clears last m = true := by
  cases last with
  | none => exact iff_of_true rfl rfl
  | some l =>
    rw [Option.filter_eq_none_iff, Track.clears, Option.all_some, decide_eq_true_eq,
      ← Address.not_le]
    refine ⟨fun h hle => h l rfl (decide_eq_true hle), fun h l' hl' hle => h ?_⟩
    rw [Option.some_inj.1 hl']
    exact of_decide_eq_true hle

theorem pull_of_none (h : Track.takeLeast (Track.fromMarks r.sources) = none) :
    r.pull = (none, { r with sources := Track.fromMarks r.sources },
      Track.leadingRemarks r.sources) := by
  rw [pull.eq_def]
  split
  · rfl
  · rename_i hsome
    cases h.symm.trans hsome

theorem pull_of_clears (h : Track.takeLeast (Track.fromMarks r.sources) = some (m, sources))
    (hlast : (r.last.filter fun last => m.span.first ≤ last) = none) :
    r.pull = (some m, { r with sources, last := some m.span.last },
      Track.leadingRemarks r.sources) := by
  rw [pull.eq_def]
  split
  · rename_i hnone
    cases h.symm.trans hnone
  · rename_i hsome
    obtain ⟨rfl, rfl⟩ := Prod.mk.inj (Option.some_inj.1 (h.symm.trans hsome))
    rw [hlast]

theorem pull_of_not_clears {last : Address}
    (h : Track.takeLeast (Track.fromMarks r.sources) = some (m, sources))
    (hlast : (r.last.filter fun last => m.span.first ≤ last) = some last) :
    r.pull = ({ r with sources, dropped := r.dropped + 1 }.pull.1,
      { r with sources, dropped := r.dropped + 1 }.pull.2.1,
      Track.leadingRemarks r.sources ++
        Track.dropWarning m last :: { r with sources, dropped := r.dropped + 1 }.pull.2.2) := by
  rw [pull.eq_def]
  split
  · rename_i hnone
    cases h.symm.trans hnone
  · rename_i hsome
    obtain ⟨rfl, rfl⟩ := Prod.mk.inj (Option.some_inj.1 (h.symm.trans hsome))
    rw [hlast]

/-- **What sources give when they are merged as they are read is what is written down of them.** -/
theorem pull_track (r : OnDemand α) (hahead : r.ahead = none) :
    Track.pull (fun _ => true) r.dropped (Track.merge r.last r.sources) =
      ⟨r.pull.1, r.pull.2.1.track, r.pull.2.2⟩ := by
  induction r using OnDemand.pull.induct with
  | case1 r h =>
    rw [pull_of_none h, Track.merge_of_none h, pull_remarks, track, hahead]
    dsimp only
    rw [merge_fromMarks h, Track.pull, List.append_nil]
  | case2 r m sources h _ hlast =>
    rw [pull_of_clears h hlast, Track.merge_of_clears h (filter_eq_none_iff.1 hlast), pull_remarks,
      track, hahead]
    dsimp only
    rw [Track.pull, if_pos rfl, List.append_nil]
  | case3 r m sources h _ last hlast mark r' remarks hpull ih =>
    obtain ⟨hsome, -⟩ := Option.filter_eq_some_iff.1 hlast
    have hclears : ¬ Track.clears r.last m = true := fun hclears => by
      rw [filter_eq_none_iff.2 hclears] at hlast
      cases hlast
    obtain ⟨l, hl, hmerge⟩ := Track.merge_of_not_clears h hclears
    obtain rfl : last = l := Option.some_inj.1 (hsome.symm.trans hl)
    have hrest := ih hahead
    dsimp only at hrest
    rw [hsome] at hrest
    rw [pull_of_not_clears h hlast, hmerge, pull_remarks, Track.pull, hsome, hrest]

theorem ahead_pull (r : OnDemand α) : r.pull.2.1.ahead = r.ahead := by
  induction r using OnDemand.pull.induct with
  | case1 r h => rw [pull_of_none h]
  | case2 r m sources h _ hlast => rw [pull_of_clears h hlast]
  | case3 r m sources h _ last hlast mark r' remarks hpull ih =>
    rw [pull_of_not_clears h hlast]
    exact ih

/-- **Sources answer a call as the merge that was written down of them**, and what is left of them
is what is left of the merge. -/
theorem call_track (r : OnDemand α) (c : Call) :
    r.track.call c = ⟨(r.call c).1, (r.call c).2.1.track, (r.call c).2.2⟩ := by
  cases hahead : r.ahead with
  | some m =>
    cases c with
    | peek =>
      rw [call, peek, hahead, Track.call, Track.peek, Track.lookFor, track, hahead]
      rfl
    | next =>
      rw [call, next, hahead, Track.call, Track.next, track, hahead]
      rfl
  | none =>
    have hpull := pull_track r hahead
    have hkeeps := (ahead_pull r).trans hahead
    cases c with
    | peek =>
      rw [call, peek, hahead, Track.call, Track.peek, Track.lookFor, track, hahead]
      dsimp only
      rw [if_neg (by exact Bool.false_ne_true), hpull]
      rfl
    | next =>
      rw [call, next, hahead, Track.call, Track.next, track, hahead]
      exact hpull

theorem answers_track (r : OnDemand α) (calls : List Call) :
    r.track.answers calls = r.answers calls := by
  induction calls generalizing r with
  | nil => rfl
  | cons c calls ih =>
    rw [Track.answers, answers, call_track]
    exact congrArg _ (ih _)

theorem afterCalls_track (r : OnDemand α) (calls : List Call) :
    r.track.afterCalls calls = (r.afterCalls calls).track := by
  induction calls generalizing r with
  | nil => rfl
  | cons c calls ih =>
    show (r.track.call c).track.afterCalls calls = ((r.call c).2.1.afterCalls calls).track
    rw [call_track]
    exact ih _

end

end OnDemand

/-! ## The marks of sources -/

namespace Track

section

variable {sources sources' : List (List (Item α))} {taken taken' : List (Mark α)}

theorem valid_marks_ofSources
    (hvalid : ∀ source ∈ sources, ∀ m ∈ marksOf source, m.span.Valid) :
    ∀ m ∈ (ofSources sources).marks, m.span.Valid := by
  intro m hm
  obtain ⟨source, hsource, hmem⟩ := exists_source_of_mem_merge none sources hm
  exact hvalid source hsource m (mem_marksOf.2 hmem)

theorem apart_of_ascending {marks : List (Mark α)}
    (hasc : Span.Ascending (marks.map Mark.span)) : marks.Pairwise Mark.Apart := by
  refine (List.pairwise_map.1 hasc.2).imp fun {m m'} hlt a hboth => ?_
  exact Span.not_contains_of_last_lt hlt (Span.contains_iff.1 hboth.2).1 hboth.1

/-- Marks that ascend are told by what they are, without their order. -/
theorem eq_of_ascending (hasc : Span.Ascending (taken.map Mark.span))
    (hasc' : Span.Ascending (taken'.map Mark.span)) (hperm : taken.Perm taken') :
    taken = taken' := by
  refine hperm.eq_of_pairwise (fun m m' hm hm' hlt hlt' => ?_) (List.pairwise_map.1 hasc.2)
    (List.pairwise_map.1 hasc'.2)
  have hle := hasc.1 _ (List.mem_map_of_mem hm)
  have hle' := hasc'.1 _ (List.mem_map_of_mem hm')
  have hbetween := hle.2
  have hbetween' := hle'.2
  simp only [Address.le_iff_rank, Address.lt_iff_rank] at hlt hlt' hbetween hbetween'
  omega

/-- Sources in order whose marks are all apart. -/
structure Sorted (sources : List (List (Item α))) : Prop where
  inOrder : ∀ source ∈ sources, InOrder (marksOf source)
  valid : ∀ source ∈ sources, ∀ m ∈ marksOf source, m.span.Valid
  apart : (sources.flatMap marksOf).Pairwise Mark.Apart

theorem Sorted.perm (h : Sorted sources) (hperm : sources'.Perm sources) : Sorted sources' where
  inOrder source hsource := h.inOrder source (hperm.mem_iff.1 hsource)
  valid source hsource := h.valid source (hperm.mem_iff.1 hsource)
  apart := ((hperm.flatMap_right marksOf).pairwise_iff fun h a ha => h a ha.symm).2 h.apart

/-- **Nothing of sources in order is dropped when their marks are all apart**: a merge gives all of
them, in ascending order. -/
theorem Sorted.marks (h : Sorted sources) :
    Span.Ascending ((takenOf (merge none sources)).map Mark.span) ∧
      (ofSources sources).marks = takenOf (merge none sources) ∧
      dropsOf (merge none sources) = 0 := by
  obtain ⟨htakes, hkept⟩ := takes_merge none sources
  have hasc : Span.Ascending ((takenOf (merge none sources)).map Mark.span) := by
    refine htakes.ascending (List.forall_mem_map.2 h.inOrder) ?_ ?_
    · intro m hm
      obtain ⟨marks, hmarks, hm⟩ := List.mem_flatten.1 hm
      obtain ⟨source, hsource, rfl⟩ := List.mem_map.1 hmarks
      exact h.valid source hsource m hm
    · rw [← List.flatMap_def]
      exact h.apart
  have hall := keep_of_ascending hasc fun m _ => show clears none m = true from rfl
  refine ⟨hasc, hkept.trans hall, ?_⟩
  have hcount := length_takenOf (merge none sources)
  rw [hkept, hall] at hcount
  omega

/-- The order of such sources is of no account. -/
theorem Sorted.marks_congr (h : Sorted sources) (hperm : sources'.Perm sources) :
    (ofSources sources').marks = (ofSources sources).marks := by
  obtain ⟨hasc, hmarks, -⟩ := h.marks
  obtain ⟨hasc', hmarks', -⟩ := (h.perm hperm).marks
  rw [hmarks, hmarks']
  refine eq_of_ascending hasc' hasc ?_
  have htaken := (takes_merge none sources).1.perm
  have htaken' := (takes_merge none sources').1.perm
  exact htaken'.trans ((hperm.map marksOf).flatten.trans htaken.symm)

end

/-- **The marks of sources, call by call.**  The marks are taken that start least, from the earliest
source among equals, and those are kept that start after the end of the last one kept.  These are
given out, however often they are looked at; they ascend and no two of them meet; and once there are
none, every mark has been given out or was dropped.  Merging the sources as they are read comes to
the same.  Nothing is dropped of sources in order whose marks are all apart, and then the sources may
come in any order. -/
theorem answers_ofSources (sources : List (List (Item α)))
    (hvalid : ∀ source ∈ sources, ∀ m ∈ marksOf source, m.span.Valid) :
    ∃ taken, (∀ taken', Takes (sources.map marksOf) taken' ↔ taken' = taken) ∧
      (ofSources sources).Reads (keep none taken) ∧
      (∀ calls,
        Span.Ascending (((ofSources sources).taken calls).map Mark.span) ∧
        ((ofSources sources).taken calls).Pairwise Mark.Apart ∧
        (none ∈ (ofSources sources).answers calls →
          ((ofSources sources).taken calls).length +
            ((ofSources sources).afterCalls calls).dropped = (sources.flatMap marksOf).length) ∧
        ({ sources } : OnDemand α).answers calls = (ofSources sources).answers calls ∧
        (({ sources } : OnDemand α).afterCalls calls).dropped =
          ((ofSources sources).afterCalls calls).dropped) ∧
      ((∀ source ∈ sources, InOrder (marksOf source)) →
        (sources.flatMap marksOf).Pairwise Mark.Apart →
        keep none taken = taken ∧ Span.Ascending (taken.map Mark.span) ∧
          taken.Perm (sources.flatMap marksOf) ∧
          ∀ sources', sources'.Perm sources → ∀ calls,
            (ofSources sources').answers calls = (ofSources sources).answers calls ∧
            ((ofSources sources').afterCalls calls).dropped = 0) := by
  obtain ⟨htakes, hkept⟩ := takes_merge none sources
  have hperm : (takenOf (merge none sources)).Perm (sources.flatMap marksOf) := by
    rw [List.flatMap_def]
    exact htakes.perm
  refine ⟨takenOf (merge none sources), fun taken' => ⟨fun h => h.unique htakes, ?_⟩, ?_, ?_, ?_⟩
  · rintro rfl
    exact htakes
  · rw [← marks_ofSources]
    exact reads_marks _
  · intro calls
    have hasc := ascending_ofSources (valid_marks_ofSources hvalid)
    have htaken : Span.Ascending (((ofSources sources).taken calls).map Mark.span) := by
      rw [← List.take_append_drop (calls.count .next) (ofSources sources).marks,
        List.map_append] at hasc
      rw [taken_eq]
      exact (Span.ascending_append.1 hasc).1
    refine ⟨htaken, apart_of_ascending htaken, fun h => ?_, ?_, ?_⟩
    · obtain ⟨hall, hdropped⟩ := taken_of_answers h
      rw [hall, hdropped, ← hperm.length_eq, length_takenOf]
      show _ + (0 + dropsOf (merge none sources)) = _
      rw [Nat.zero_add]
      rfl
    · exact (OnDemand.answers_track _ calls).symm
    · exact congrArg Track.dropped (OnDemand.afterCalls_track { sources } calls).symm
  · intro hinOrder hapart
    have hsorted : Sorted sources := ⟨hinOrder, hvalid, hapart⟩
    obtain ⟨hasc, hmarks, hdrops⟩ := hsorted.marks
    refine ⟨(marks_ofSources sources).symm.trans hmarks, hasc, hperm, fun sources' hsources calls => ?_⟩
    refine ⟨answers_congr (hsorted.marks_congr hsources) calls, ?_⟩
    have hcount := dropped_afterCalls (ofSources sources') calls
    have hnone : (ofSources sources').dropped + dropsOf (ofSources sources').events = 0 :=
      (Nat.zero_add _).trans (hsorted.perm hsources).marks.2.2
    exact Nat.eq_zero_of_add_eq_zero_right (hcount.trans hnone)

/-- Of four marks in two sources that begin together the second and the third are dropped, and the
next mark is looked at in between.  Two sources whose marks are apart change places. -/
theorem answers_ofSources_overlapping :
    ∃ (sources apart : List (List (Item Flag))) (calls : List Call),
      (∀ source ∈ sources ++ apart, ∀ m ∈ marksOf source, m.span.Valid) ∧
        calls = [.peek, .next, .peek, .peek, .next, .next] ∧
        ((ofSources sources).taken calls).length = 2 ∧
        ((ofSources sources).afterCalls calls).dropped = 2 ∧
        (sources.flatMap marksOf).length = 4 ∧
        (∀ source ∈ apart, InOrder (marksOf source)) ∧
        (apart.flatMap marksOf).Pairwise Mark.Apart ∧
        (ofSources apart.reverse).answers calls = (ofSources apart).answers calls := by
  let span (m n : Nat) (hm : m < Family.v4.size) (hn : n < Family.v4.size) : Span :=
    ⟨⟨.v4, m, hm⟩, ⟨.v4, n, hn⟩⟩
  let front : Mark Flag := ⟨span 10 20 (by decide) (by decide), .yes⟩
  let inside : Mark Flag := ⟨span 15 30 (by decide) (by decide), .yes⟩
  let behind : Mark Flag := ⟨span 21 25 (by decide) (by decide), .yes⟩
  let sources : List (List (Item Flag)) :=
    [[.mark front, .remark ⟨.warn, "line 2"⟩, .mark inside], [.mark front, .mark behind]]
  let apart : List (List (Item Flag)) := [[.mark behind], [.mark front]]
  let calls : List Call := [.peek, .next, .peek, .peek, .next, .next]
  have hvalid : ∀ source ∈ sources ++ apart, ∀ m ∈ marksOf source, m.span.Valid := by decide
  obtain ⟨hsources, hrest⟩ := List.forall_mem_append.1 hvalid
  have hinOrder : ∀ source ∈ apart, InOrder (marksOf source) := by
    unfold InOrder
    decide
  have hlt : front.span.last < behind.span.first := by decide
  have hapart : (apart.flatMap marksOf).Pairwise Mark.Apart := List.pairwise_pair.2 fun _ ha =>
    Span.not_contains_of_last_lt hlt (Span.contains_iff.1 ha.1).1 ha.2
  have hlength : ((ofSources sources).taken calls).length = 2 := by decide +kernel
  have hnone : none ∈ (ofSources sources).answers calls := by
    have hany : ((ofSources sources).answers calls).any Option.isNone = true := by decide +kernel
    obtain ⟨answer, hanswer, hnone⟩ := List.any_eq_true.1 hany
    rwa [Option.isNone_iff_eq_none.1 hnone] at hanswer
  obtain ⟨-, -, -, hcalls, -⟩ := answers_ofSources sources hsources
  obtain ⟨_, -, -, -, hsorted⟩ := answers_ofSources apart hrest
  obtain ⟨-, -, hcount, -, -⟩ := hcalls calls
  obtain ⟨-, -, -, hperm⟩ := hsorted hinOrder hapart
  refine ⟨sources, apart, calls, hvalid, rfl, hlength, ?_, rfl, hinOrder, hapart, ?_⟩
  · have htotal := hcount hnone
    rw [hlength] at htotal
    exact Nat.add_left_cancel htotal
  · exact (hperm _ (List.reverse_perm apart) calls).1

end Track

end IpAtlas
