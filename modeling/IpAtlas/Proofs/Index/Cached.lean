import IpAtlas.Proofs.Storage

/-!
# What a cache changes

A reader with a cache searches like one without, but decodes a record only if it does not remember
it.  The two do not ask the same before they answer.  What is decoded answers for the addresses up
to the end of its record; what is remembered answers for those of its own span.  Nothing makes a
writer take a location whose span is that of its record, and where the spans differ, so do the
answers: a location that was found once is lost the next time, or is found behind its end.

So a cache goes unnoticed exactly if these two questions have the same answer for every address that
a search leads to a record that answers at all.

## What is here

* `Reader.Recalls` — readers whose cache holds nothing but what was decoded.
* `Reader.Recalls.lookup_floor` — a lookup with a cache, step by step.
* `Reader.Recalls.after` — and after any others.
* `Reader.answers_withCache_iff` — when a cache goes unnoticed, in a file that was written.
* `Reader.answers_withCache_stale` — a file in which it does not.
-/

set_option autoImplicit false

namespace IpAtlas

theorem Entry.span_of_readBack {e : Entry} {location : Location}
    (h : e.readBack = .ok location) : location.span = e.location.span := by
  simp only [readBack, Codec.decodeLocation, Codec.Read.runOn, Codec.Reader.start] at h
  split at h
  · rename_i l r hread
    obtain rfl : l = location := by simpa [Except.map] using h
    exact Codec.Read.span_of_location (List.take_append_drop _ _).symm hread
  · simp [Except.map] at h

namespace Index

/-! ## Files that were written -/

namespace Writer

theorem entries_of_create {disk : Disk} {path : Path} {w : Writer}
    (h : (create disk path).1 = .ok w) : w.entries.toList = [] := by
  simp only [create] at h
  split at h
  · obtain rfl := Except.ok.inj h
    rfl
  · simp at h

theorem entries_foldl_append (w : Writer) (entries : List Entry) :
    (entries.foldl append w).entries.toList = w.entries.toList ++ entries := by
  induction entries generalizing w with
  | nil => simp
  | cons e entries ih => simp [ih, append]

theorem map_of_finish {w : Writer} {disk written : Disk} {path : Path} {remarks : Journal}
    (h : w.finish disk = (.ok path, written, remarks)) :
    written.map path = .ok (image w.entries.toList) := by
  rw [finish] at h
  split at h
  · rename_i disk' hcomplete
    obtain ⟨hpath, hdisk, -⟩ : w.path = path ∧ disk' = written ∧ _ := by simpa using h
    rw [← hpath, ← hdisk]
    exact map_of_complete hcomplete
  · simp at h

end Writer

namespace Reader

theorem cache_of_open {disk : Disk} {path : Path} {r : Reader} (h : Reader.open disk path = .ok r) :
    r.cache = none := by
  rw [Reader.open] at h
  split at h
  · simp only [ofBytes] at h
    split at h
    · obtain rfl := Except.ok.inj h
      rfl
    · simp at h
  · simp at h

/-! ## One lookup -/

/-- A location that the record of a number is decoded to. -/
def Decoded (entries : List Entry) (index : Nat) (location : Location) : Prop :=
  ∃ e, entries[index]? = some e ∧ e.readBack = .ok location

/-- A reader of the image of some entries that remembers nothing but what records are decoded to. -/
structure Recalls (r : Reader) (entries : List Entry) : Prop extends r.Shows entries where
  cached : ∀ cache, r.cache = some cache → cache.Sound (Decoded entries)

/-- What a lookup answers without a cache, once the search has led to the record of an entry. -/
def decodedAt (e : Entry) (a : Address) : Except Error (Option Location) :=
  if a ≤ e.span.last then e.readBack.map some else .ok none

section

variable {r plain : Reader} {entries before after : List Entry} {e : Entry} {a : Address}
  {location : Location}

theorem Shows.recalls_withCache (h : r.Shows entries) (capacity : Nat) :
    (r.withCache capacity).Recalls entries :=
  ⟨⟨h.content, h.header, h.small⟩, fun _ hcache => Cache.sound_of_empty? hcache⟩

theorem Recalls.with_cache (h : r.Recalls entries) {cache : Option (Cache Location)}
    (hcache : ∀ c, cache = some c → c.Sound (Decoded entries)) :
    ({ r with cache } : Reader).Recalls entries :=
  ⟨⟨h.content, h.header, h.small⟩, hcache⟩

/-- The number of a record, found by the search, stands for its entry. -/
theorem decoded_iff (hf : Entry.Floor entries a before e after) :
    Decoded entries before.length location ↔ e.readBack = .ok location := by
  rw [Decoded, hf.split]
  simp

/-- A lookup of a record that is not remembered. -/
theorem Shows.lookup_of_miss (h : r.Shows entries) (hasc : Span.Ascending (entries.map Entry.span))
    (hf : Entry.Floor entries a before e after)
    (hmiss : r.cache.bind (·.get before.length) = none) :
    (r.lookup a).1 = decodedAt e a ∧
      (r.lookup a).2 = match decodedAt e a with
        | .ok (some location) => { r with cache := r.cache.map (·.put before.length location) }
        | _ => r := by
  have hdecode : r.decodeRecord before.length a = decodedAt e a :=
    decodeRecord_eq_readBack (hf.split ▸ h) a
  rw [lookup, floor?_eq h hasc hf]
  simp only [hmiss, hdecode]
  rcases decodedAt e a with _ | _ | location <;> exact ⟨rfl, rfl⟩

/-- A lookup of a record that is remembered. -/
theorem Shows.lookup_of_hit (h : r.Shows entries) (hasc : Span.Ascending (entries.map Entry.span))
    (hf : Entry.Floor entries a before e after) {cache : Cache Location}
    (hhit : r.cache.bind (·.get before.length) = some (location, cache)) :
    r.lookup a = (.ok (if location.span.contains a then some location else none),
      { r with cache := some cache }) := by
  rw [lookup, floor?_eq h hasc hf]
  simp only [hhit]

theorem decodedAt_eq_some (h : decodedAt e a = .ok (some location)) :
    e.readBack = .ok location := by
  rw [decodedAt] at h
  split at h
  · cases hread : e.readBack with
    | error cause => simp [hread, Except.map] at h
    | ok l => simpa [hread, Except.map] using h
  · simp at h

/-- **A lookup with a cache** answers as one without does, or, if it remembers the record, by the
span of its location; and it remembers nothing wrong afterwards. -/
theorem Recalls.lookup_floor (h : r.Recalls entries)
    (hasc : Span.Ascending (entries.map Entry.span)) (hf : Entry.Floor entries a before e after) :
    (r.lookup a).2.Recalls entries ∧
      ((r.lookup a).1 = decodedAt e a ∨ ∃ location, e.readBack = .ok location ∧
        (r.lookup a).1 = .ok (if e.location.span.contains a then some location else none)) := by
  cases hfound : r.cache.bind (·.get before.length) with
  | some found =>
    obtain ⟨location, cache⟩ := found
    obtain ⟨c, hc, hget⟩ := Option.bind_eq_some_iff.1 hfound
    obtain ⟨hright, hsound⟩ := (h.cached c hc).get hget
    have hread := (decoded_iff hf).1 hright
    rw [h.toShows.lookup_of_hit hasc hf hfound]
    refine ⟨h.with_cache ?_, Or.inr ⟨location, hread, by rw [Entry.span_of_readBack hread]⟩⟩
    rintro c' hc'
    rw [← Option.some_inj.1 hc']
    exact hsound
  | none =>
    obtain ⟨hanswer, hnext⟩ := h.toShows.lookup_of_miss hasc hf hfound
    refine ⟨?_, Or.inl hanswer⟩
    rw [hnext]
    split
    · rename_i location hdecoded
      refine h.with_cache ?_
      rintro c hc
      obtain ⟨c₀, hc₀, rfl⟩ := Option.map_eq_some_iff.1 hc
      exact (h.cached c₀ hc₀).put ((decoded_iff hf).2 (decodedAt_eq_some hdecoded))
    · exact h

/-- Where every record starts behind the address there is nothing to remember. -/
theorem Shows.lookup_of_lt_first (h : r.Shows entries) (hall : ∀ e ∈ entries, a < e.span.first) :
    r.lookup a = (.ok none, r) := by
  rw [lookup, floor?_eq_none h hall]

/-- Without a cache the record decides, and nothing is remembered. -/
theorem Shows.lookup_floor (h : plain.Shows entries) (hcache : plain.cache = none)
    (hasc : Span.Ascending (entries.map Entry.span)) (hf : Entry.Floor entries a before e after) :
    plain.lookup a = (decodedAt e a, plain) := by
  obtain ⟨hanswer, hnext⟩ := h.lookup_of_miss hasc hf (by rw [hcache]; rfl)
  refine Prod.ext hanswer (hnext.trans ?_)
  split
  · rw [hcache, Option.map_none, ← hcache]
  · rfl

end

/-! ## Any number of lookups -/

theorem get_eq (r : Reader) (a : Address) :
    (r.get a).1 = (r.lookup a).1.toOption.join ∧ (r.get a).2.1 = (r.lookup a).2 := by
  rw [get]
  rcases r.lookup a with ⟨_ | location, next⟩ <;> exact ⟨rfl, rfl⟩

theorem answer_eq (r : Reader) (a : Address) :
    (Database.file r).answer a = (r.lookup a).1.toOption.join := (r.get_eq a).1

theorem answers_cons (r : Reader) (a : Address) (asked : List Address) :
    (Database.file r).answers (a :: asked) =
      (Database.file r).answer a :: (Database.file (r.lookup a).2).answers asked := by
  rw [← (r.get_eq a).2]
  rfl

/-- Without a cache a lookup changes nothing. -/
theorem lookup_uncached {r : Reader} (h : r.cache = none) (a : Address) : (r.lookup a).2 = r := by
  rw [lookup.eq_def]
  split
  · rfl
  · rfl
  · rw [h, Option.bind_none]
    dsimp only
    split
    · rfl
    · rfl
    · obtain ⟨content, header, cache⟩ := r
      obtain rfl : cache = none := h
      rfl

/-- The reader when some addresses have been looked up. -/
def afterLookups (r : Reader) (asked : List Address) : Reader :=
  asked.foldl (fun r a => (r.lookup a).2) r

theorem after_eq (r : Reader) (asked : List Address) :
    (Database.file r).after asked = .file (r.afterLookups asked) := by
  induction asked generalizing r with
  | nil => rfl
  | cons a asked ih =>
    have hnext : ((Database.file r).get a).2.1 = .file (r.lookup a).2 :=
      congrArg Database.file (r.get_eq a).2
    rw [Database.after, List.foldl_cons, hnext]
    exact ih _

/-- For every address that a search leads to a record that answers at all, two questions have the
same answer: whether the address lies in the span of the location, and whether it does not lie
behind the end of the record. -/
def Unnoticed (plain : Reader) (entries : List Entry) : Prop :=
  ∀ before e after a, Entry.Floor entries a before e after →
    (Database.file plain).answer e.span.first ≠ none →
      (e.location.span.contains a = true ↔ a ≤ e.span.last)

section

variable {r plain : Reader} {entries before after : List Entry} {e : Entry} {a : Address}
  {location : Location}

/-- The search for the start of a record leads to it. -/
theorem floor_first (hf : Entry.Floor entries a before e after)
    (hasc : Span.Ascending (entries.map Entry.span)) :
    Entry.Floor entries e.span.first before e after ∧ e.span.first ≤ e.span.last := by
  rw [hf.split, List.map_append, List.map_cons, Span.ascending_append, Span.ascending_cons] at hasc
  obtain ⟨-, ⟨hvalid, hlt, -⟩, -⟩ := hasc
  refine ⟨⟨hf.split, Address.le_refl _, ?_⟩, hvalid.2⟩
  intro x hx
  exact Nat.lt_of_le_of_lt hvalid.2 (hlt x.span (List.mem_map_of_mem hx))

/-- Bound to the spans of their records, locations answer for the same addresses. -/
theorem unnoticed_of_bound (hbound : ∀ e ∈ entries, e.location.span = e.span) :
    plain.Unnoticed entries := by
  intro before e after a hf _
  rw [hbound e (by simp [hf.split]), Span.contains_iff]
  exact and_iff_right hf.first_le

variable (hplain : plain.Shows entries) (huncached : plain.cache = none)
  (hasc : Span.Ascending (entries.map Entry.span))
include hplain huncached hasc

/-- A record answers for its start what its location is read back as. -/
theorem answer_first (hf : Entry.Floor entries a before e after) :
    (Database.file plain).answer e.span.first = e.readBack.toOption := by
  obtain ⟨hfirst, hle⟩ := floor_first hf hasc
  rw [answer_eq, hplain.lookup_floor huncached hasc hfirst, decodedAt, if_pos hle]
  cases e.readBack <;> rfl

/-- One lookup with a cache, compared with the same one without. -/
theorem Recalls.lookup (h : r.Recalls entries) (a : Address) :
    (r.lookup a).2.Recalls entries ∧
      ((Database.file r).answer a = (Database.file plain).answer a ∨
        ∃ before e after, Entry.Floor entries a before e after ∧
          (Database.file plain).answer e.span.first ≠ none ∧
          (Database.file r).answer a = if e.location.span.contains a
            then (Database.file plain).answer e.span.first else none) := by
  rw [answer_eq, answer_eq]
  rcases Entry.exists_floor entries a with hall | ⟨before, e, after, hf⟩
  · rw [h.toShows.lookup_of_lt_first hall, hplain.lookup_of_lt_first hall]
    exact ⟨h, Or.inl rfl⟩
  · obtain ⟨hnext, hanswer⟩ := h.lookup_floor hasc hf
    refine ⟨hnext, ?_⟩
    rcases hanswer with hsame | ⟨location, hread, hanswer⟩
    · rw [hsame, hplain.lookup_floor huncached hasc hf]
      exact Or.inl rfl
    · have hfirst := answer_first hplain huncached hasc hf
      refine Or.inr ⟨before, e, after, hf, ?_, ?_⟩
      · simp [hfirst, hread, Except.toOption]
      · rw [hanswer, hfirst, hread]
        split <;> rfl

/-- **Whatever was looked up before**, an answer with a cache is the one without, or that of a record
which is remembered. -/
theorem Recalls.answer_after (h : r.Recalls entries) (asked : List Address) (a : Address) :
    ((Database.file r).after asked).answer a = (Database.file plain).answer a ∨
      ∃ before e after, Entry.Floor entries a before e after ∧
        (Database.file plain).answer e.span.first ≠ none ∧
        ((Database.file r).after asked).answer a = if e.location.span.contains a
          then (Database.file plain).answer e.span.first else none := by
  rw [after_eq]
  induction asked generalizing r with
  | nil => exact (h.lookup hplain huncached hasc a).2
  | cons b asked ih => exact ih (h.lookup hplain huncached hasc b).1

/-- One lookup goes unnoticed. -/
theorem Recalls.answer_eq_of_unnoticed (h : r.Recalls entries) (hsame : plain.Unnoticed entries)
    (a : Address) : (Database.file r).answer a = (Database.file plain).answer a := by
  rcases (h.lookup hplain huncached hasc a).2 with hanswer | ⟨before, e, after, hf, hsome, hanswer⟩
  · exact hanswer
  · rw [answer_first hplain huncached hasc hf] at hanswer hsome
    rw [hanswer, answer_eq plain, hplain.lookup_floor huncached hasc hf, decodedAt]
    cases hread : e.readBack with
    | error cause => simp [hread, Except.toOption] at hsome
    | ok location =>
      have hiff := hsame before e after a hf (by
        rw [answer_first hplain huncached hasc hf, hread]; simp [Except.toOption])
      by_cases hle : a ≤ e.span.last
      · rw [if_pos (hiff.2 hle), if_pos hle]
        rfl
      · rw [if_neg (hiff.not.2 hle), if_neg hle]
        rfl

/-- So does any number of them. -/
theorem Recalls.answers_eq_of_unnoticed (h : r.Recalls entries) (hsame : plain.Unnoticed entries)
    (asked : List Address) : (Database.file r).answers asked = (Database.file plain).answers asked := by
  induction asked generalizing r with
  | nil => rfl
  | cons a asked ih =>
    rw [answers_cons, answers_cons, h.answer_eq_of_unnoticed hplain huncached hasc hsame,
      lookup_uncached huncached, ih (h.lookup hplain huncached hasc a).1]

/-- **A record that is looked up twice** is remembered the second time. -/
theorem answers_withCache_twice (hf : Entry.Floor entries a before e after) {capacity : Nat}
    (hcapacity : capacity ≠ 0) (hread : e.readBack = .ok location) :
    (Database.file (plain.withCache capacity)).answers [e.span.first, a] =
      [some location, if e.location.span.contains a then some location else none] := by
  obtain ⟨hfirst, hle⟩ := floor_first hf hasc
  have hrecalls := hplain.recalls_withCache capacity
  have hempty : (plain.withCache capacity).cache = some { capacity } := by
    simp [withCache, Cache.empty?, hcapacity]
  have hdecoded : decodedAt e e.span.first = .ok (some location) := by
    simp [decodedAt, hle, hread, Except.map]
  obtain ⟨hanswer, hnext⟩ := hrecalls.toShows.lookup_of_miss hasc hfirst (by rw [hempty]; rfl)
  obtain ⟨cache, hget⟩ := Cache.get_put { capacity } before.length location
    (Nat.pos_of_ne_zero hcapacity)
  have hshows := (hrecalls.lookup hplain huncached hasc e.span.first).1.toShows
  have hhit : ((plain.withCache capacity).lookup e.span.first).2.cache.bind
      (·.get before.length) = some (location, cache) := by
    simp only [hnext, hdecoded, hempty]
    exact hget
  rw [answers_cons, answers_cons, answer_eq, answer_eq, hanswer, hdecoded,
    hshows.lookup_of_hit hasc hf hhit, Entry.span_of_readBack hread]
  rfl

/-- So a cache is noticed if these questions ever have different answers. -/
theorem unnoticed_of_answers_eq {capacity : Nat} (hcapacity : capacity ≠ 0)
    (hsame : ∀ asked, (Database.file (plain.withCache capacity)).answers asked =
      (Database.file plain).answers asked) : plain.Unnoticed entries := by
  intro before e after a hf hsome
  obtain ⟨location, hread⟩ : ∃ location, e.readBack = .ok location := by
    rw [answer_first hplain huncached hasc hf] at hsome
    cases hread : e.readBack with
    | error cause => simp [hread, Except.toOption] at hsome
    | ok location => exact ⟨location, rfl⟩
  have htwice := answers_withCache_twice hplain huncached hasc hf hcapacity hread
  have hplainly : (Database.file plain).answers [e.span.first, a] =
      [some location, if a ≤ e.span.last then some location else none] := by
    rw [answers_cons, answers_cons, answer_first hplain huncached hasc hf, hread, answer_eq,
      lookup_uncached huncached, hplain.lookup_floor huncached hasc hf, decodedAt, hread]
    by_cases hle : a ≤ e.span.last <;> simp [hle, Except.map, Except.toOption, Database.answers]
  rw [hsame, hplainly] at htwice
  by_cases hle : a ≤ e.span.last <;> by_cases hcontains : e.location.span.contains a = true <;>
    simp_all

end

/-- **When a cache goes unnoticed.**  In a file that was written from ascending entries, whatever
spans their locations have, lookups with a cache get the answers they get without exactly if there is
no room in it, or for every address that a search leads to a record that answers at all, the address
lies in the span of the location if and only if it does not lie behind the end of the record.
Whatever was looked up before, an answer that is not the one without the cache is that of a record
which is remembered, given by the span of its location alone.  And of locations that are bound to
the spans of their entries none is ever lost or found elsewhere. -/
theorem answers_withCache_iff {disk later written : Disk} {path goal : Path} {w : Writer}
    {remarks : Journal} {entries : List Entry} {r : Reader}
    (hcreate : (Writer.create disk path).1 = .ok w)
    (hasc : Span.Ascending (entries.map Entry.span))
    (hfinish : (entries.foldl Writer.append w).finish later = (.ok goal, written, remarks))
    (hopen : Reader.open written goal = .ok r) (capacity : Nat) :
    ((∀ asked, (Database.file (r.withCache capacity)).answers asked =
        (Database.file r).answers asked) ↔ capacity = 0 ∨ r.Unnoticed entries) ∧
      (∀ asked a, ((Database.file (r.withCache capacity)).after asked).answer a =
          (Database.file r).answer a ∨
        ∃ before e after, Entry.Floor entries a before e after ∧
          (Database.file r).answer e.span.first ≠ none ∧
          ((Database.file (r.withCache capacity)).after asked).answer a =
            if e.location.span.contains a then (Database.file r).answer e.span.first else none) ∧
      ((∀ e ∈ entries, e.location.span = e.span) → r.Unnoticed entries) := by
  have hmap := Writer.map_of_finish hfinish
  rw [Writer.entries_foldl_append, Writer.entries_of_create hcreate, List.nil_append] at hmap
  have hshows := shows_of_open hmap hopen
  have huncached := cache_of_open hopen
  have hrecalls := hshows.recalls_withCache capacity
  refine ⟨⟨fun hsame => ?_, ?_⟩, hrecalls.answer_after hshows huncached hasc, unnoticed_of_bound⟩
  · by_cases hcapacity : capacity = 0
    · exact Or.inl hcapacity
    · exact Or.inr (unnoticed_of_answers_eq hshows huncached hasc hcapacity hsame)
  · rintro (rfl | hunnoticed)
    · intro asked
      rw [withCache, Cache.empty?, if_pos rfl, ← huncached]
    · exact hrecalls.answers_eq_of_unnoticed hshows huncached hasc hunnoticed

/-- A location whose span ends before its record does: it is found once, and not again. -/
theorem answers_withCache_stale :
    ∃ (entries : List Entry) (w : Writer) (written : Disk) (goal : Path) (remarks : Journal)
      (r : Reader), (Writer.create {} ⟨"ranges.idx"⟩).1 = .ok w ∧
        Span.Ascending (entries.map Entry.span) ∧ (∀ e ∈ entries, e.location.span.Valid) ∧
        (entries.foldl Writer.append w).finish (Writer.create {} ⟨"ranges.idx"⟩).2 =
          (.ok goal, written, remarks) ∧
        Reader.open written goal = .ok r ∧
        ¬ ∀ asked, (Database.file (r.withCache 1)).answers asked =
          (Database.file r).answers asked := by
  let four (n : Nat) (h : n < Family.v4.size) : Address := ⟨.v4, n, h⟩
  let span : Span := ⟨four 10 (by decide), four 19 (by decide)⟩
  let e : Entry := ⟨span, { span := ⟨four 10 (by decide), four 12 (by decide)⟩ }⟩
  have hbuilt : ((Writer.create {} ⟨"ranges.idx"⟩).1.toOption.bind fun w =>
      (([e].foldl Writer.append w).finish (Writer.create {} ⟨"ranges.idx"⟩).2).1.toOption.bind
        fun goal => (Reader.open (([e].foldl Writer.append w).finish
          (Writer.create {} ⟨"ranges.idx"⟩).2).2.1 goal).toOption.bind fun r =>
            (Database.file r).answer e.span.first).isSome = true := by
    decide +kernel
  obtain ⟨location, hbuilt⟩ := Option.isSome_iff_exists.1 hbuilt
  obtain ⟨w, hcreate, hbuilt⟩ := Option.bind_eq_some_iff.1 hbuilt
  obtain ⟨goal, hgoal, hbuilt⟩ := Option.bind_eq_some_iff.1 hbuilt
  obtain ⟨r, hopen, hanswer⟩ := Option.bind_eq_some_iff.1 hbuilt
  have hasc : Span.Ascending ([e].map Entry.span) :=
    Span.ascending_cons.2 ⟨by decide, by simp, Span.ascending_nil⟩
  have hfinish : ([e].foldl Writer.append w).finish (Writer.create {} ⟨"ranges.idx"⟩).2 =
      (.ok goal, _, _) := Prod.ext (eq_ok_of_toOption hgoal) rfl
  refine ⟨[e], w, _, goal, _, r, eq_ok_of_toOption hcreate, hasc,
    List.forall_mem_singleton.2 (by decide), hfinish, eq_ok_of_toOption hopen, fun hall => ?_⟩
  have hiff := answers_withCache_iff (eq_ok_of_toOption hcreate) hasc hfinish
    (eq_ok_of_toOption hopen) 1
  rcases hiff.1.1 hall with hcapacity | hunnoticed
  · exact absurd hcapacity (by decide)
  · have hcontains := (hunnoticed [] e [] (four 15 (by decide)) ⟨rfl, by decide, by simp⟩
      (by simp [hanswer])).2 (by decide)
    exact absurd hcontains (by decide)

end Reader

end Index

end IpAtlas
