import IpAtlas.Proofs.Index.Assembly
import IpAtlas.Proofs.Index.Cached

/-!
# Reading a file back record by record

A file that a writer leaves has three sections, and whoever opens it finds under the number of every
entry the place of a record.  Read from there on, the record is the entry, and it ends where the next
one begins, or where the table does.  Nothing is asked of the entries but that their locations can be
told from their bytes: they may come in any order, overlap, or run backwards.

## What is here

* `Reader.record`, `Reader.yields_record` — a record as it is read.
* `startOf` — where records begin and end.
* `Reader.Finds`, `Reader.Shows.finds` — what is found under a number.
* `Reader.exists_open_iff` — the files that are accepted.
* `Writer.finds_of_finish` — the file that a writer leaves, section by section and record by record.
-/

set_option autoImplicit false

namespace IpAtlas

theorem Entry.readBack_of_fits {e : Entry} (hspan : e.location.span.Valid)
    (hfits : (Codec.encodeLocation e.location).length < 2 ^ 32) : e.readBack = .ok e.location := by
  have hmod : (Codec.encodeLocation e.location).length % Bytes.capacity 4 =
      (Codec.encodeLocation e.location).length := Nat.mod_eq_of_lt hfits
  simp only [readBack, hmod, List.take_length, Codec.decodeLocation_encodeLocation hspan hfits]

namespace Index

/-! ## Records -/

/-- The next record: two bounds, and a location of the length that stands before it. -/
def Reader.record : Codec.Read Entry := do
  let first ← Codec.Read.address
  let last ← Codec.Read.address
  let bytes ← Codec.Read.take (← Codec.Read.word)
  match Codec.decodeLocation bytes with
  | .ok location => return ⟨⟨first, last⟩, location⟩
  | .error e => throw e

/-- **A record is read as its entry**, and nothing behind it is looked at. -/
theorem Reader.yields_record {e : Entry} (hspan : e.location.span.Valid)
    (hfits : (Codec.encodeLocation e.location).length < 2 ^ 32) :
    Codec.Read.Yields Reader.record (encodeEntry e) e := by
  rw [encodeEntry, List.append_assoc, List.append_assoc]
  refine (Codec.Read.yields_address _).bind ((Codec.Read.yields_address _).bind
    ((Codec.Read.yields_word hfits).bind ((Codec.Read.yields_take rfl).last ?_)))
  rw [Codec.decodeLocation_encodeLocation hspan hfits]
  exact Codec.Read.yields_pure e

theorem length_encodeEntry_pos (e : Entry) : 0 < (encodeEntry e).length := by
  simp only [encodeEntry, Codec.encodeAddress, List.cons_append, List.length_cons]
  exact Nat.succ_pos _

/-- Where the record of a number begins, and the one before it ends. -/
def startOf (entries : List Entry) (index : Nat) : Nat := (headerOf (entries.take index)).table

theorem startOf_length (entries : List Entry) :
    startOf entries entries.length = (headerOf entries).table := by
  rw [startOf, List.take_length]

theorem startOf_before (before after : List Entry) (e : Entry) :
    startOf (before ++ e :: after) before.length = (headerOf before).table := by
  rw [startOf, List.take_left]

theorem startOf_behind (before after : List Entry) (e : Entry) :
    startOf (before ++ e :: after) (before.length + 1) =
      (headerOf before).table + (encodeEntry e).length := by
  have htake : (before ++ e :: after).take (before.length + 1) = before ++ [e] := by
    rw [List.take_length_add_append]
    rfl
  rw [startOf, htake]
  simp only [headerOf, body_append, body_cons, List.length_append, Nat.add_assoc]
  rfl

/-- The entry of a number, between those before it and those behind it. -/
theorem exists_split {entries : List Entry} {index : Nat} {e : Entry}
    (h : entries[index]? = some e) :
    ∃ before after, entries = before ++ e :: after ∧ before.length = index := by
  obtain ⟨hlt, rfl⟩ := List.getElem?_eq_some_iff.1 h
  refine ⟨entries.take index, entries.drop (index + 1), ?_, by rw [List.length_take]; omega⟩
  rw [← List.drop_eq_getElem_cons hlt, List.take_append_drop]

/-- The table holds these places, in the order of the entries. -/
theorem places_eq (entries : List Entry) :
    places headerSize (entries.map encodeEntry) =
      (List.range entries.length).map (startOf entries) := by
  refine List.ext_getElem? fun index => ?_
  by_cases hlt : index < entries.length
  · obtain ⟨before, after, hsplit, rfl⟩ := exists_split (List.getElem?_eq_getElem hlt)
    generalize entries[before.length] = e at hsplit
    subst hsplit
    have hplaces := length_places headerSize (before.map encodeEntry)
    rw [List.length_map] at hplaces
    rw [List.getElem?_map, List.getElem?_range hlt, Option.map_some, startOf_before,
      List.map_append, places_append, List.map_cons, places,
      List.getElem?_append_right (Nat.le_of_eq hplaces), hplaces, Nat.sub_self]
    rfl
  · rw [List.getElem?_eq_none, List.getElem?_eq_none] <;>
      simp only [length_places, List.length_map, List.length_range] <;> omega

namespace Reader

/-- What is found under a number: a record between two places that is read as an entry. -/
structure Finds (r : Reader) (index : Nat) (e : Entry) (start stop : Nat) : Prop where
  /-- The slot of the number leads to the record, -/
  slot : r.placeOf index = .ok start
  /-- which lies among the records -/
  within : headerSize ≤ start ∧ start < stop ∧ stop ≤ r.header.table
  /-- and is made of the bytes of the entry. -/
  bytes : (r.content.drop start).take (stop - start) = encodeEntry e
  /-- Read from its first byte on, it is the entry, and ends with its last. -/
  reads : record.runOn (r.recordsFrom start) = .ok (e, stop - start)
  /-- The search finds its first address, -/
  first : r.firstOf index = .ok e.span.first
  /-- and a lookup its location. -/
  location : ∀ a, r.decodeRecord index a =
    .ok (if a ≤ e.span.last then some e.location else none)

section

variable {r : Reader} {entries : List Entry} {e : Entry} {index : Nat}

/-- **What a reader of an image finds under a number.** -/
theorem Shows.finds (h : r.Shows entries) (he : entries[index]? = some e)
    (hspan : e.location.span.Valid) (hfits : (Codec.encodeLocation e.location).length < 2 ^ 32) :
    r.Finds index e (startOf entries index) (startOf entries (index + 1)) := by
  obtain ⟨before, after, rfl, rfl⟩ := exists_split he
  have hlength : (headerOf before).table + (encodeEntry e).length - (headerOf before).table =
      (encodeEntry e).length := Nat.add_sub_cancel_left ..
  have hrecords := recordsFrom_eq h
  rw [startOf_before, startOf_behind]
  refine ⟨placeOf_eq h, ⟨Nat.le_add_right _ _, ?_, ?_⟩, ?_, ?_, firstOf_eq h, fun a => ?_⟩
  · exact Nat.lt_add_of_pos_right (length_encodeEntry_pos e)
  · rw [h.header]
    simp only [headerOf, body_append, body_cons, List.length_append]
    omega
  · have hsplit : ((headerOf (before ++ e :: after)).encode ++ body before).length =
        (headerOf before).table := by
      rw [List.length_append, length_encode]
      rfl
    rw [hlength, h.content, image_eq, body_append, body_cons, ← List.append_assoc,
      List.append_assoc _ _ (table _), ← hsplit, List.drop_left, List.append_assoc, List.take_left]
  · rw [hrecords, hlength]
    exact (yields_record hspan hfits).runOn (body after)
  · rw [decodeRecord_eq_readBack h, Entry.readBack_of_fits hspan hfits]
    split <;> rfl

/-- **A file that holds an image is accepted** if and only if the places in it fit their slots. -/
theorem exists_open_iff {disk : Disk} {path : Path} (hmap : disk.map path = .ok (image entries)) :
    (∃ r, Reader.open disk path = .ok r) ↔ (headerOf entries).table < Bytes.capacity slotSize := by
  constructor
  · rintro ⟨r, hopen⟩
    exact (shows_of_open hmap hopen).small
  · intro hsmall
    refine ⟨{ content := image entries, header := headerOf entries }, ?_⟩
    rw [Reader.open, hmap]
    simp only [ofBytes, Header.read_image hsmall]

end

end Reader

/-! ## Whole files -/

namespace Writer

theorem path_of_create {disk : Disk} {path : Path} {w : Writer}
    (h : (create disk path).1 = .ok w) : w.path = path := by
  simp only [create] at h
  split at h
  · obtain rfl := Except.ok.inj h
    rfl
  · cases h

theorem path_foldl_append (w : Writer) (entries : List Entry) :
    (entries.foldl append w).path = w.path := by
  induction entries generalizing w with
  | nil => rfl
  | cons e entries ih => exact ih (w.append e)

theorem path_of_finish {w : Writer} {disk written : Disk} {path : Path} {remarks : Journal}
    (h : w.finish disk = (.ok path, written, remarks)) : path = w.path := by
  rw [finish] at h
  split at h
  · exact (Except.ok.inj (Prod.mk.inj h).1).symm
  · cases (Prod.mk.inj h).1

/-- **The file that a writer leaves is read back entry by entry.**  It has a header of forty bytes,
the records, and eight bytes for each of them; it is what is put together byte by byte as the entries
come.  It is accepted if the places in it fit their slots, and then tells the number of entries and
under each number the entry itself, the first record beginning behind the header, every other where
the one before it ends, and the table where the last one does. -/
theorem finds_of_finish {disk later final : Disk} {path path' : Path} {w : Writer}
    {entries : List Entry} {remarks : Journal} (hcreate : (create disk path).1 = .ok w)
    (hspans : ∀ e ∈ entries, e.location.span.Valid)
    (hfits : ∀ e ∈ entries, (Codec.encodeLocation e.location).length < 2 ^ 32)
    (hfinish : (entries.foldl append w).finish later = (.ok path', final, remarks)) :
    path' = path ∧
      (∃ header records slots : Bytes, final.map path = .ok (header ++ records ++ slots) ∧
        header.length = 40 ∧ records = (entries.map encodeEntry).flatten ∧
        slots = ((List.range entries.length).map (startOf entries)).flatMap (Bytes.ofNatLE 8) ∧
        header = Header.encode ⟨entries.length, 40 + records.length⟩ ∧
        header ++ records ++ slots = (entries.foldl Assembly.append {}).finish) ∧
      ((∃ r, Reader.open final path = .ok r) ↔ startOf entries entries.length < 2 ^ 64) ∧
      ∀ r, Reader.open final path = .ok r →
        r.size = entries.length ∧ (entries.foldl append w).size = entries.length ∧
          startOf entries 0 = 40 ∧ startOf entries entries.length = r.header.table ∧
          ∀ index e, entries[index]? = some e →
            r.Finds index e (startOf entries index) (startOf entries (index + 1)) := by
  have hentries : (entries.foldl append w).entries.toList = entries := by
    rw [entries_foldl_append, entries_of_create hcreate, List.nil_append]
  have hpath : path' = path := by
    rw [path_of_finish hfinish, path_foldl_append, path_of_create hcreate]
  have hmap := map_of_finish hfinish
  rw [hentries, hpath] at hmap
  have hbody : body entries = (entries.map encodeEntry).flatten := rfl
  refine ⟨hpath, ⟨(headerOf entries).encode, body entries, table entries, ?_, length_encode _, hbody,
    ?_, rfl, ?_⟩, ?_, fun r hopen => ?_⟩
  · rw [hmap, image_eq]
  · rw [table, places_eq]
    rfl
  · rw [Assembly.finish_foldl_append, image_eq]
  · rw [Reader.exists_open_iff hmap, startOf_length]
    rfl
  · have hshows := Reader.shows_of_open hmap hopen
    refine ⟨Reader.size_eq hshows, ?_, rfl, ?_, fun index e he => ?_⟩
    · rw [size, ← Array.length_toList, hentries]
    · rw [startOf_length, hshows.header]
    · have hmem := List.mem_of_getElem? he
      exact hshows.finds he (hspans e hmem) (hfits e hmem)

/-- Two records of two families that come in the wrong order, the second of which runs backwards:
the file is accepted, and both are found. -/
theorem finds_of_finish_unordered :
    ∃ (first second : Entry) (w : Writer) (final : Disk) (r : Reader),
      second.span.first < first.span.first ∧ second.span.last < second.span.first ∧
        (create {} ⟨"ranges.idx"⟩).1 = .ok w ∧
        (([first, second].foldl append w).finish (create {} ⟨"ranges.idx"⟩).2).2.1 = final ∧
        Reader.open final ⟨"ranges.idx"⟩ = .ok r ∧ r.size = 2 ∧
        r.Finds 0 first 40 (startOf [first, second] 1) ∧
        r.Finds 1 second (startOf [first, second] 1) r.header.table := by
  let path : Path := ⟨"ranges.idx"⟩
  let four (n : Fin 10) : Address := ⟨.v4, n, Nat.lt_trans n.isLt (by decide)⟩
  let six (n : Fin 10) : Address := ⟨.v6, n, Nat.lt_trans n.isLt (by decide)⟩
  let first : Entry := ⟨⟨six 1, six 2⟩, { span := ⟨six 1, six 2⟩ }⟩
  let second : Entry := ⟨⟨four 8, four 3⟩, { span := ⟨four 4, four 5⟩ }⟩
  have hwritten : ((create {} path).1.toOption.bind fun w =>
      (([first, second].foldl append w).finish (create {} path).2).1.toOption).isSome = true := by
    decide +kernel
  obtain ⟨path', hwritten⟩ := Option.isSome_iff_exists.1 hwritten
  obtain ⟨w, hcreate, hfinish⟩ := Option.bind_eq_some_iff.1 hwritten
  obtain ⟨-, -, hopen, hfinds⟩ := finds_of_finish (eq_ok_of_toOption hcreate)
    (by decide +kernel) (by decide +kernel) (Prod.ext (eq_ok_of_toOption hfinish) rfl)
  obtain ⟨r, hr⟩ := hopen.2 (by decide +kernel)
  obtain ⟨hsize, -, hstart, hstop, hentries⟩ := hfinds r hr
  refine ⟨first, second, w, _, r, by decide, by decide, eq_ok_of_toOption hcreate, rfl, hr, hsize,
    ?_, ?_⟩
  · rw [← hstart]
    exact hentries 0 first rfl
  · rw [← hstop]
    exact hentries 1 second rfl

end Writer

end Index

end IpAtlas
