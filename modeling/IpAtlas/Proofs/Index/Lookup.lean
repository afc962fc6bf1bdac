import IpAtlas.Index.Reader
import IpAtlas.Proofs.Codec
import IpAtlas.Proofs.Index.Image
import IpAtlas.Proofs.Lookup

/-!
# Looking an address up in an index file

A reader of the image of some entries finds by way of its table what the entries say: the place of
a record, the bounds of the record, and its location.  So it answers as the entries do.

A reader with a cache does the same, whatever it was asked before.  It trusts the span of a location
that it takes from the cache, and not the record's, so this needs locations that are bound to the
spans of their entries.  What the cache holds is at any time the location of the record under whose
number it is kept, and nothing more has to be known about it: a cache that forgets is no worse.

## What is here

* `Entry.Retrievable` — entries that can be told from their records, with or without a cache.
* `Entry.readBack` — what a record is decoded to, whatever its entry.
* `Cache.Sound` — caches that hold nothing wrong.
* `Reader.Shows`, `Reader.firstOf_eq`, `Reader.decodeRecord_eq`, `Reader.floor?_eq` — what a reader
  of an image reads.
* `Reader.Serves`, `Reader.lookup_eq` — a lookup answers as the entries do, and the next one will.
-/

set_option autoImplicit false

namespace IpAtlas

/-- An entry whose location is bound to its span, and short enough to be written. -/
structure Entry.Retrievable (e : Entry) : Prop where
  bound : e.location.span = e.span
  fits : (Codec.encodeLocation e.location).length < 2 ^ 32

/-! ## Caches -/

namespace Cache

variable {α : Type} {right : Nat → α → Prop} {cache cache' : Cache α} {key : Nat} {x : α}

/-- Everything in a cache is right for its key. -/
def Sound (right : Nat → α → Prop) (cache : Cache α) : Prop :=
  ∀ e ∈ cache.entries, right e.1 e.2

theorem sound_of_empty? {capacity : Nat} (h : empty? capacity = some cache) :
    cache.Sound right := by
  rw [empty?] at h
  split at h
  · exact absurd h (by simp)
  · rw [Option.some_inj] at h
    subst h
    intro e he
    simp at he

theorem mem_of_find? (h : cache.find? key = some x) : (key, x) ∈ cache.entries := by
  rw [find?, List.lookup_eq_some_iff] at h
  obtain ⟨front, back, h, -⟩ := h
  rw [h]
  simp

theorem Sound.cons_others (h : cache.Sound right) (hx : right key x) :
    ∀ e ∈ (key, x) :: cache.others key, right e.1 e.2 := by
  refine List.forall_mem_cons.2 ⟨hx, fun e he => h e ?_⟩
  exact List.mem_of_mem_filter he

/-- A value that is found is right, and the cache stays sound. -/
theorem Sound.get (h : cache.Sound right) (hget : cache.get key = some (x, cache')) :
    right key x ∧ cache'.Sound right := by
  obtain ⟨y, hy, heq⟩ := Option.map_eq_some_iff.1 hget
  obtain ⟨rfl, rfl⟩ := Prod.mk.inj heq
  have hright := h _ (mem_of_find? hy)
  exact ⟨hright, h.cons_others hright⟩

/-- A value that was put into a cache is found there, if there is any room. -/
theorem get_put (cache : Cache α) (key : Nat) (x : α) (hroom : 0 < cache.capacity) :
    ∃ cache', (cache.put key x).get key = some (x, cache') := by
  obtain ⟨room, hroom⟩ := Nat.exists_eq_add_one_of_ne_zero (Nat.ne_of_gt hroom)
  rw [get, find?, put, hroom, List.take_succ_cons]
  simp

theorem Sound.put (h : cache.Sound right) (hx : right key x) : (cache.put key x).Sound right :=
  fun e he => h.cons_others hx e (List.mem_of_mem_take he)

end Cache

/-- What the location of an entry is read back as.  Its length is written in four bytes, so of one
that is longer only a front is looked at. -/
def Entry.readBack (e : Entry) : Except Error Location :=
  let bytes := Codec.encodeLocation e.location
  Codec.decodeLocation (bytes.take (bytes.length % Bytes.capacity 4))

theorem Entry.Retrievable.readBack_eq {e : Entry} (h : e.Retrievable) (hvalid : e.span.Valid) :
    e.readBack = .ok e.location := by
  have hlocation : Codec.decodeLocation (Codec.encodeLocation e.location) = .ok e.location :=
    Codec.decodeLocation_encodeLocation (by rw [h.bound]; exact hvalid) h.fits
  have hfits : (Codec.encodeLocation e.location).length % Bytes.capacity 4 =
      (Codec.encodeLocation e.location).length := Nat.mod_eq_of_lt h.fits
  simp only [readBack, hfits, List.take_length, hlocation]

namespace Index

/-! ## Records -/

theorem Reader.yields_bounds (e : Entry) :
    Codec.Read.Yields Reader.bounds
      (Codec.encodeAddress e.span.first ++ Codec.encodeAddress e.span.last) e.span.last :=
  (Codec.Read.yields_address _).bind (Codec.Read.yields_address _)

/-- What stands in a record before its location. -/
def recordHead (e : Entry) : Bytes :=
  Codec.encodeAddress e.span.first ++ Codec.encodeAddress e.span.last ++
    Codec.encodeWord (Codec.encodeLocation e.location).length

theorem encodeEntry_eq (e : Entry) :
    encodeEntry e = recordHead e ++ Codec.encodeLocation e.location := rfl

theorem Reader.yields_recordHead (e : Entry) :
    Codec.Read.Yields (Reader.bounds *> Codec.Read.word) (recordHead e)
      ((Codec.encodeLocation e.location).length % Bytes.capacity 4) :=
  (Reader.yields_bounds e).seqRight (Codec.Read.yields_word_mod _)

namespace Reader

/-- A reader of the image of some entries, which is not so large that a place does not fit a
slot. -/
structure Shows (r : Reader) (entries : List Entry) : Prop where
  content : r.content = image entries
  header : r.header = headerOf entries
  small : (headerOf entries).table < Bytes.capacity slotSize

section

variable {r : Reader} {before after : List Entry} {e : Entry}

theorem table_lt_table (before after : List Entry) (e : Entry) :
    (headerOf before).table < (headerOf (before ++ e :: after)).table := by
  have hpos : 0 < (encodeEntry e).length := by
    simp only [encodeEntry, Codec.encodeAddress, List.length_append, List.length_cons]
    omega
  simp only [headerOf, body_append, body_cons, List.length_append]
  omega

theorem placeOf_eq (h : r.Shows (before ++ e :: after)) :
    r.placeOf before.length = .ok (headerOf before).table := by
  have hlt := table_lt_table before after e
  have hsmall := h.small
  have hslot := numberAt_slot before after e
  rw [Nat.mod_eq_of_lt (by omega)] at hslot
  have hlen := length_image (before ++ e :: after)
  rw [List.length_append, List.length_cons] at hlen
  have hstart : headerSize ≤ (headerOf before).table := Nat.le_add_right _ _
  rw [placeOf, h.content, h.header]
  simp only [hslot]
  rw [if_neg, if_neg (by omega)]
  rw [hlen, Nat.mul_add, Nat.mul_add, ← Nat.add_assoc]
  simp only [headerOf, slotSize]
  omega

theorem recordsFrom_eq (h : r.Shows (before ++ e :: after)) :
    r.recordsFrom (headerOf before).table = encodeEntry e ++ body after := by
  rw [recordsFrom, h.content, h.header]
  exact records_from before after e

theorem firstOf_eq (h : r.Shows (before ++ e :: after)) :
    r.firstOf before.length = .ok e.span.first := by
  have hread := (Codec.Read.yields_address e.span.first).runOn
    (Codec.encodeAddress e.span.last ++
      (Codec.encodeWord (Codec.encodeLocation e.location).length ++
        (Codec.encodeLocation e.location ++ body after)))
  rw [firstOf, placeOf_eq h]
  simp only [bind, Except.bind, recordsFrom_eq h, encodeEntry, List.append_assoc, hread]
  rfl

theorem take_location (h : r.Shows (before ++ e :: after)) {count : Nat}
    (hle : count ≤ (Codec.encodeLocation e.location).length) :
    (r.recordsFrom ((headerOf before).table + (recordHead e).length)).take count =
      (Codec.encodeLocation e.location).take count := by
  have hdrop : r.recordsFrom ((headerOf before).table + (recordHead e).length) =
      Codec.encodeLocation e.location ++ body after := by
    rw [recordsFrom, ← List.drop_drop, ← recordsFrom, recordsFrom_eq h, encodeEntry_eq,
      List.append_assoc, List.drop_left]
  rw [hdrop, List.take_append_of_le_length hle]

/-- **A record is decoded to what its location is read back as**, unless the address lies behind its
end. -/
theorem decodeRecord_eq_readBack (h : r.Shows (before ++ e :: after)) (a : Address) :
    r.decodeRecord before.length a =
      if a ≤ e.span.last then e.readBack.map some else .ok none := by
  have hmod := Nat.mod_le (Codec.encodeLocation e.location).length (Bytes.capacity 4)
  have hrecord : r.recordsFrom (headerOf before).table =
      Codec.encodeAddress e.span.first ++ Codec.encodeAddress e.span.last ++
        (Codec.encodeWord (Codec.encodeLocation e.location).length ++
          (Codec.encodeLocation e.location ++ body after)) := by
    rw [recordsFrom_eq h]
    simp only [encodeEntry, List.append_assoc]
  have hbounds := (yields_bounds e).runOn
    (Codec.encodeWord (Codec.encodeLocation e.location).length ++
      (Codec.encodeLocation e.location ++ body after))
  have hhead := (yields_recordHead e).runOn (Codec.encodeLocation e.location ++ body after)
  rw [← List.append_assoc, ← encodeEntry_eq, ← recordsFrom_eq h] at hhead
  rw [← hrecord] at hbounds
  have hend : ¬ (headerOf (before ++ e :: after)).table <
      (headerOf before).table + (recordHead e).length +
        (Codec.encodeLocation e.location).length % Bytes.capacity 4 := by
    simp only [headerOf, body_append, body_cons, encodeEntry_eq, List.length_append]
    omega
  rw [decodeRecord, placeOf_eq h]
  simp only [bind, Except.bind, hbounds, hhead, h.header, if_neg hend, take_location h hmod]
  by_cases hle : a ≤ e.span.last
  · rw [if_neg fun hlt => Address.not_le.2 hlt hle, if_pos hle, Entry.readBack]
    cases Codec.decodeLocation ((Codec.encodeLocation e.location).take
      ((Codec.encodeLocation e.location).length % Bytes.capacity 4)) <;> rfl
  · rw [if_pos (Address.not_le.1 hle), if_neg hle]
    rfl

/-- If the location can be told from the record, the record is decoded to it. -/
theorem decodeRecord_eq (h : r.Shows (before ++ e :: after)) (he : e.Retrievable)
    (hvalid : e.span.Valid) (a : Address) :
    r.decodeRecord before.length a =
      .ok (if a ≤ e.span.last then some e.location else none) := by
  rw [decodeRecord_eq_readBack h, he.readBack_eq hvalid]
  split <;> rfl

end

/-! ## Lookups -/

section

variable {r : Reader} {entries : List Entry}

theorem size_eq (h : r.Shows entries) : r.size = entries.length := by
  rw [size, h.header]
  rfl

/-- The test that the search asks of a record, asked of its entry. -/
theorem startsBy_eq (h : r.Shows entries) (a : Address) {i : Nat} (hi : i < entries.length) :
    ((r.firstOf i).map fun first => decide (first ≤ a)) = .ok (Entry.startsBy entries a i) := by
  have hsplit : entries = entries.take i ++ entries[i] :: entries.drop (i + 1) := by
    rw [List.getElem_cons_drop, List.take_append_drop]
  have hlen : (entries.take i).length = i := by
    rw [List.length_take]
    omega
  have hfirst := firstOf_eq (hsplit ▸ h)
  rw [hlen] at hfirst
  rw [hfirst, Entry.startsBy, List.getElem?_eq_getElem hi]
  rfl

theorem firstFailureM_eq_startsBy (h : r.Shows entries) (a : Address) :
    firstFailureM (fun i => (r.firstOf i).map fun first => decide (first ≤ a)) 0 r.size =
      .ok (firstFailure (Entry.startsBy entries a) 0 entries.length) := by
  rw [size_eq h]
  exact firstFailureM_eq fun i hi => startsBy_eq h a hi

/-- **The search of the table finds the last record that starts by an address.** -/
theorem floor?_eq (h : r.Shows entries) (hasc : Span.Ascending (entries.map Entry.span))
    {a : Address} {before after : List Entry} {e : Entry}
    (hf : Entry.Floor entries a before e after) : r.floor? a = .ok (some before.length) := by
  rw [floor?, firstFailureM_eq_startsBy h, Entry.firstFailure_floor hf hasc]
  rfl

theorem floor?_eq_none (h : r.Shows entries) {a : Address}
    (hall : ∀ e ∈ entries, a < e.span.first) : r.floor? a = .ok none := by
  rw [floor?, firstFailureM_eq_startsBy h, Entry.firstFailure_of_lt_first hall]
  rfl

/-- The location of the entry of a number. -/
def Recorded (entries : List Entry) (index : Nat) (location : Location) : Prop :=
  (entries[index]?).map (·.location) = some location

/-- A reader of the image of some entries that remembers nothing wrong. -/
structure Serves (r : Reader) (entries : List Entry) : Prop extends r.Shows entries where
  cached : ∀ cache, r.cache = some cache → cache.Sound (Recorded entries)

theorem Shows.serves_withCache (h : r.Shows entries) (capacity : Nat) :
    (r.withCache capacity).Serves entries :=
  ⟨⟨h.content, h.header, h.small⟩, fun _ hc => Cache.sound_of_empty? hc⟩

/-- The cache of a reader may be replaced by any other that is sound. -/
theorem Serves.with_cache (h : r.Serves entries) {cache : Option (Cache Location)}
    (hc : ∀ c, cache = some c → c.Sound (Recorded entries)) :
    ({ r with cache } : Reader).Serves entries :=
  ⟨⟨h.content, h.header, h.small⟩, hc⟩

/-- **A lookup answers as the entries do**, with a cache or without, and leaves a reader of which
that can be said again. -/
theorem lookup_eq (h : r.Serves entries) (hasc : Span.Ascending (entries.map Entry.span))
    (hret : ∀ e ∈ entries, e.Retrievable) (a : Address) :
    (r.lookup a).1 = .ok (Entry.answerOf entries a) ∧ (r.lookup a).2.Serves entries := by
  rcases Entry.exists_floor entries a with hall | ⟨before, e, after, hf⟩
  · rw [lookup, floor?_eq_none h.toShows hall, Entry.answerOf_of_lt_first hall]
    exact ⟨rfl, h⟩
  have hmem : e ∈ entries := by
    rw [hf.split]
    simp
  have he := hret e hmem
  have hvalid := hasc.1 e.span (List.mem_map_of_mem hmem)
  have hrecorded : Recorded entries before.length e.location := by
    rw [Recorded, hf.split]
    simp
  rw [lookup, floor?_eq h.toShows hasc hf, Entry.answerOf_floor hf hasc]
  cases hfound : r.cache.bind (·.get before.length) with
  | some found =>
    obtain ⟨location, cache⟩ := found
    obtain ⟨c, hc, hget⟩ := Option.bind_eq_some_iff.1 hfound
    obtain ⟨hright, hsound⟩ := (h.cached c hc).get hget
    obtain rfl : e.location = location := Option.some_inj.1 (hrecorded.symm.trans hright)
    have hiff : e.location.span.contains a = true ↔ a ≤ e.span.last := by
      rw [he.bound, Span.contains_iff]
      exact and_iff_right hf.first_le
    simp only [hfound, hiff]
    exact ⟨trivial, h.with_cache fun c' hc' => by rw [← Option.some_inj.1 hc']; exact hsound⟩
  | none =>
    have hdecode := decodeRecord_eq (hf.split ▸ h.toShows) he hvalid a
    simp only [hfound, hdecode]
    by_cases hle : a ≤ e.span.last
    · simp only [if_pos hle]
      refine ⟨trivial, h.with_cache fun c hc => ?_⟩
      obtain ⟨c₀, hc₀, rfl⟩ := Option.map_eq_some_iff.1 hc
      exact (h.cached c₀ hc₀).put hrecorded
    · simp only [if_neg hle]
      exact ⟨trivial, h⟩

end

end Reader

end Index

end IpAtlas
