import IpAtlas.Proofs.Codec.Checked
import IpAtlas.Proofs.Index.Cached
import IpAtlas.Proofs.Search
import IpAtlas.Proofs.Temporary

/-!
# Files that hold anything

A file is taken for an index by its header alone: the sections it tells of must be those of a file of
that size.  So no file that is taken is the beginning of another one that is, and a file that was cut
or went on is told.  The records and the table may hold anything.

Whatever they hold, a lookup answers with nothing or with a location over a range, and this location
was decoded from bytes between the header and the table; so was everything that a cache remembers.

## What is here

* `Header.Describes`, `Header.describes_iff` — which files are taken.
* `Header.describes_image` — those that were written are.
* `Header.eq_of_prefix` — none of them is the beginning of another.
* `Reader.Holds`, `Reader.holds_of_decodeRecord` — locations from the records section.
* `Reader.Sound`, `Reader.Sound.lookup`, `Reader.Sound.afterLookups` — one lookup, and any number.
-/

set_option autoImplicit false

namespace IpAtlas.Index

/-! ## Which files are taken -/

/-- What makes a file an index: a header whose sections add up to the size of the file, in numbers of
a word each. -/
structure Header.Describes (bs : Bytes) : Prop where
  size : headerSize ≤ bs.length
  magic : bs.take 8 = magic
  version : numberAt bs 8 4 = version
  records : numberAt bs 24 8 = headerSize
  table : headerSize ≤ numberAt bs 32 8
  sections : (Checked.mul? (numberAt bs 16 8) slotSize).bind
    (Checked.add? · (numberAt bs 32 8)) = some bs.length

theorem Header.read_eq_ok_iff {bs : Bytes} {h : Header} :
    Header.read bs = .ok h ↔ headerSize ≤ bs.length ∧ bs.take 8 = Index.magic ∧
      numberAt bs 8 4 = Index.version ∧ numberAt bs 24 8 = headerSize ∧
      headerSize ≤ numberAt bs 32 8 ∧
      numberAt bs 32 8 + slotSize * numberAt bs 16 8 = bs.length ∧
      h = ⟨numberAt bs 16 8, numberAt bs 32 8⟩ := by
  rw [Header.read]
  constructor
  · intro hread
    split_ifs at hread with hsize hmagic hversion
    dsimp only at hread
    split_ifs at hread with hsections
    obtain ⟨hrecords, hle, hlen⟩ := hsections
    refine ⟨Nat.le_of_not_lt hsize, not_not.1 hmagic, not_not.1 hversion, hrecords, ?_, hlen,
      (Except.ok.inj hread).symm⟩
    rwa [hrecords] at hle
  · rintro ⟨hsize, hmagic, hversion, hrecords, hle, hlen, rfl⟩
    rw [if_neg (Nat.not_lt_of_le hsize), if_neg (not_not_intro hmagic),
      if_neg (not_not_intro hversion)]
    dsimp only
    rw [if_pos ⟨hrecords, by rwa [hrecords], hlen⟩]

/-- **The header of a file is read** if and only if it describes the file. -/
theorem Header.describes_iff {bs : Bytes} (hword : bs.length < Checked.wordCount) :
    (∃ h, Header.read bs = .ok h) ↔ Header.Describes bs := by
  have hsections : (Checked.mul? (numberAt bs 16 8) slotSize).bind
      (Checked.add? · (numberAt bs 32 8)) = some bs.length ↔
      numberAt bs 32 8 + slotSize * numberAt bs 16 8 = bs.length := by
    rw [Nat.add_comm, Nat.mul_comm slotSize]
    constructor
    · intro h
      obtain ⟨table, htable, hsum⟩ := Option.bind_eq_some_iff.1 h
      rw [Checked.mul?] at htable
      rw [Checked.add?] at hsum
      split_ifs at htable hsum
      rw [← Option.some.inj hsum, ← Option.some.inj htable]
    · intro h
      rw [Checked.mul?_eq (by omega), Option.bind_some, Checked.add?_eq (by omega), h]
  constructor
  · rintro ⟨h, hread⟩
    obtain ⟨hsize, hmagic, hversion, hrecords, hle, hlen, -⟩ := Header.read_eq_ok_iff.1 hread
    exact ⟨hsize, hmagic, hversion, hrecords, hle, hsections.2 hlen⟩
  · rintro ⟨hsize, hmagic, hversion, hrecords, hle, hlen⟩
    exact ⟨_, Header.read_eq_ok_iff.2
      ⟨hsize, hmagic, hversion, hrecords, hle, hsections.1 hlen, rfl⟩⟩

theorem numberAt_append_left {front : Bytes} (back : Bytes) {place count : Nat}
    (h : place + count ≤ front.length) : numberAt (front ++ back) place count =
      numberAt front place count := by
  rw [numberAt, numberAt, List.drop_append_of_le_length (by omega),
    List.take_append_of_le_length (by rw [List.length_drop]; omega)]

/-- **No file that is taken is the beginning of another one.** -/
theorem Header.eq_of_prefix {front bs : Bytes} {h h' : Header} (hfront : front <+: bs)
    (hread : Header.read front = .ok h) (hread' : Header.read bs = .ok h') : front = bs := by
  obtain ⟨back, rfl⟩ := hfront
  obtain ⟨hsize, -, -, -, -, hlen, -⟩ := Header.read_eq_ok_iff.1 hread
  obtain ⟨-, -, -, -, -, hlen', -⟩ := Header.read_eq_ok_iff.1 hread'
  have hsize : 40 ≤ front.length := hsize
  rw [numberAt_append_left back (by omega), numberAt_append_left back (by omega), hlen,
    List.length_append] at hlen'
  rw [List.eq_nil_of_length_eq_zero (show back.length = 0 by omega), List.append_nil]

/-- A file that was written describes itself, if its size is a word. -/
theorem Header.describes_image {entries : List Entry}
    (hword : (image entries).length < Checked.wordCount) : Header.Describes (image entries) := by
  refine (Header.describes_iff hword).1 ⟨headerOf entries, Header.read_image ?_⟩
  rw [length_image] at hword
  exact Nat.lt_of_le_of_lt (Nat.le_add_right _ _) hword

namespace Reader

theorem open_eq {disk : Disk} {path : Path} {bs : Bytes} (hmap : disk.map path = .ok bs) :
    Reader.open disk path = ofBytes bs := by
  rw [Reader.open, hmap]

theorem ofBytes_eq_ok_iff {bs : Bytes} {r : Reader} :
    ofBytes bs = .ok r ↔ ∃ h, Header.read bs = .ok h ∧ r = { content := bs, header := h } := by
  rw [ofBytes]
  constructor
  · intro h
    split at h
    · rename_i header hread
      exact ⟨header, hread, (Except.ok.inj h).symm⟩
    · cases h
  · rintro ⟨h, hread, rfl⟩
    rw [hread]

/-- A file that is not taken is told to be no index. -/
theorem exists_fault_of_ofBytes {bs : Bytes} (h : ∀ r, ofBytes bs ≠ .ok r) :
    ∃ fault, ofBytes bs = .error (.index fault) := by
  rw [ofBytes] at h ⊢
  split at h
  · exact absurd rfl (h _)
  · exact ⟨_, rfl⟩

/-- A file that was cut or goes on is not taken. -/
theorem ofBytes_of_prefix {bs bs' : Bytes} {r : Reader} (h : ofBytes bs = .ok r)
    (hcut : bs' <+: bs ∨ bs <+: bs') (hne : bs' ≠ bs) :
    ∃ fault, ofBytes bs' = .error (.index fault) := by
  obtain ⟨header, hread, -⟩ := ofBytes_eq_ok_iff.1 h
  refine exists_fault_of_ofBytes fun r' h' => hne ?_
  obtain ⟨header', hread', -⟩ := ofBytes_eq_ok_iff.1 h'
  rcases hcut with hfront | hfront
  · exact Header.eq_of_prefix hfront hread' hread
  · exact (Header.eq_of_prefix hfront hread hread').symm

/-! ## Locations from the records section -/

/-- A location over a range, decoded from bytes between the header and the table. -/
def Holds (r : Reader) (location : Location) : Prop :=
  location.span.Valid ∧ ∃ start stop, headerSize ≤ start ∧ start ≤ stop ∧ stop ≤ r.header.table ∧
    Codec.decodeLocation ((r.content.take stop).drop start) = .ok location

/-- The place of a record lies in the records section. -/
theorem placeOf_bounds {r : Reader} {index place : Nat} (h : r.placeOf index = .ok place) :
    headerSize ≤ place ∧ place < r.header.table := by
  rw [placeOf] at h
  dsimp only at h
  split_ifs at h with hslot hplace
  rw [← Except.ok.inj h]
  omega

theorem recordsFrom_take {r : Reader} {start length : Nat} (h : start + length ≤ r.header.table) :
    (r.recordsFrom start).take length = (r.content.take (start + length)).drop start := by
  rw [recordsFrom, List.take_drop, List.take_take, Nat.min_eq_left h]

theorem length_recordsFrom_le (r : Reader) (place : Nat) :
    (r.recordsFrom place).length ≤ r.header.table - place := by
  rw [recordsFrom, List.length_drop, List.length_take]
  omega

/-- **What a record is decoded to** comes from the records section. -/
theorem holds_of_decodeRecord {r : Reader} {index : Nat} {a : Address} {location : Location}
    (h : r.decodeRecord index a = .ok (some location)) : r.Holds location := by
  rw [decodeRecord] at h
  obtain ⟨place, hplace, h⟩ := exists_of_bind_eq_ok h
  obtain ⟨⟨last, used⟩, -, h⟩ := exists_of_bind_eq_ok h
  dsimp only at h
  split_ifs at h with hlast
  · cases h
  obtain ⟨⟨length, used⟩, -, h⟩ := exists_of_bind_eq_ok h
  dsimp only at h
  split_ifs at h with hlong
  obtain ⟨location', hdecode, h⟩ := exists_of_bind_eq_ok h
  obtain rfl : location' = location := Option.some.inj (Except.ok.inj h)
  have hstop : place + used + length ≤ r.header.table := Nat.le_of_not_lt hlong
  rw [recordsFrom_take hstop] at hdecode
  refine ⟨Codec.valid_of_decodeLocation hdecode, place + used, place + used + length, ?_,
    Nat.le_add_right _ _, hstop, hdecode⟩
  exact Nat.le_add_right_of_le (placeOf_bounds hplace).1

/-! ## Lookups -/

/-- The search of the table ends at a record that there is. -/
theorem lt_size_of_floor? {r : Reader} {a : Address} {index : Nat}
    (h : r.floor? a = .ok (some index)) : index < r.size := by
  rw [floor?] at h
  obtain ⟨count, hcount, h⟩ := exists_of_bind_eq_ok h
  have hle := firstFailureM_le (Nat.zero_le _) hcount
  have hindex := Except.ok.inj h
  split_ifs at hindex with hzero
  have hindex := Option.some.inj hindex
  omega

/-- A reader of a file that was taken for an index, which remembers nothing but locations from its
records section. -/
structure Sound (r : Reader) : Prop where
  header : Header.read r.content = .ok r.header
  cached : ∀ cache, r.cache = some cache → cache.Sound fun _ location => r.Holds location

variable {r : Reader}

theorem Sound.table_le (h : r.Sound) : r.header.table + slotSize * r.size = r.content.length := by
  obtain ⟨-, -, -, -, -, hlen, hheader⟩ := Header.read_eq_ok_iff.1 h.header
  rw [size, hheader]
  exact hlen

theorem Sound.with_cache (h : r.Sound) {cache : Option (Cache Location)}
    (hcache : ∀ c, cache = some c → c.Sound fun _ location => r.Holds location) :
    ({ r with cache } : Reader).Sound :=
  ⟨h.header, hcache⟩

/-- A reader that was just opened is sound, whatever room it is given. -/
theorem sound_of_ofBytes {bs : Bytes} (h : ofBytes bs = .ok r) (capacity : Nat) :
    (r.withCache capacity).Sound := by
  obtain ⟨header, hread, rfl⟩ := ofBytes_eq_ok_iff.1 h
  exact ⟨hread, fun _ hcache => Cache.sound_of_empty? hcache⟩

/-- **One lookup** answers with a location from the records section, if with any, and leaves a sound
reader of the same file. -/
theorem Sound.lookup (h : r.Sound) (a : Address) :
    (∀ location, (r.lookup a).1 = .ok (some location) → r.Holds location) ∧
      (r.lookup a).2.Sound ∧ (r.lookup a).2.content = r.content ∧
      (r.lookup a).2.header = r.header := by
  rw [Reader.lookup]
  split
  · exact ⟨by simp, h, rfl, rfl⟩
  · exact ⟨by simp, h, rfl, rfl⟩
  rename_i index _
  split
  · rename_i location cache hhit
    obtain ⟨c, hc, hget⟩ := Option.bind_eq_some_iff.1 hhit
    obtain ⟨hholds, hsound⟩ := (h.cached c hc).get hget
    refine ⟨fun location' hanswer => ?_, h.with_cache fun c' hc' => ?_, rfl, rfl⟩
    · have hsome := Except.ok.inj hanswer
      split_ifs at hsome with hcontains
      rwa [← Option.some.inj hsome]
    · rw [← Option.some.inj hc']
      exact hsound
  · split
    · exact ⟨by simp, h, rfl, rfl⟩
    · exact ⟨by simp, h, rfl, rfl⟩
    · rename_i location hdecode
      have hholds := holds_of_decodeRecord hdecode
      refine ⟨fun location' hanswer => ?_, h.with_cache fun c hc => ?_, rfl, rfl⟩
      · rwa [← Option.some.inj (Except.ok.inj hanswer)]
      · obtain ⟨c₀, hc₀, rfl⟩ := Option.map_eq_some_iff.1 hc
        exact (h.cached c₀ hc₀).put hholds

/-- **Any number of lookups** leaves a sound reader of the same file. -/
theorem Sound.afterLookups (h : r.Sound) (asked : List Address) :
    (r.afterLookups asked).Sound ∧ (r.afterLookups asked).content = r.content ∧
      (r.afterLookups asked).header = r.header := by
  induction asked generalizing r with
  | nil => exact ⟨h, rfl, rfl⟩
  | cons a asked ih =>
    obtain ⟨-, hsound, hcontent, hheader⟩ := h.lookup a
    obtain ⟨hrest, hcontent', hheader'⟩ := ih hsound
    exact ⟨hrest, hcontent'.trans hcontent, hheader'.trans hheader⟩

end Reader

end IpAtlas.Index
