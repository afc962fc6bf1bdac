import IpAtlas.Proofs.Index.Damaged

/-!
# Lookups with machine words

A lookup in an index file, told as it runs on a machine: numbers are words of 64 bits, the file is
sliced, and the search has a number of rounds after which it would be broken off.  Everything that
could break it off is checked in the file before it is used or follows from the sizes that the header
tells of, so nothing in a file that was taken for an index does.

A file that is mapped into memory has fewer than 2⁶³ bytes; this leaves room above every place in it
for a length of four bytes.

## What is here

* `placeOf`, `record`, `firstOf`, `search`, `floor?`, `decodeRecord`, `lookup`, `get` — a lookup.
* `search_eq` — a search halves its interval, so 64 rounds are enough.
* `decodeRecord_eq`, `lookup_eq`, `get_eq` — it is not broken off, and it is the lookup.
* `Index.Reader.safe_of_any_bytes` — all that can be said of a file that may hold anything.
-/

set_option autoImplicit false

namespace IpAtlas.Checked

open Index (slotSize headerSize)

/-! ## The steps of a lookup -/

/-- Where a record begins. -/
def placeOf (r : Index.Reader) (index : Nat) : Run Nat := do
  let offset ← Run.demand (mul? index slotSize)
  let slot ← Run.demand (add? r.header.table offset)
  let stop ← Run.demand (add? slot slotSize)
  match slice? r.content slot stop with
  | none => throw (.index (.slot index))
  | some bytes =>
    -- copying to a slot breaks off if the lengths differ
    let raw ← Run.demand (if bytes.length = slotSize then some bytes else none)
    let place := Bytes.toNatLE raw
    if place < headerSize ∨ r.header.table ≤ place then throw (.index (.recordOffset place))
    else return place

/-- The bytes of the records section from a record on. -/
def record (r : Index.Reader) (index : Nat) : Run Bytes := do
  let place ← placeOf r index
  Run.demand (slice? r.content place r.header.table)

/-- The first address of a record. -/
def firstOf (r : Index.Reader) (index : Nat) : Run Address := do
  let (first, _) ← Walk.address.runOn (← record r index)
  return first

/-- The search for the first place where a test does not hold, in so many rounds. -/
def search (test : Nat → Run Bool) : Nat → Nat → Nat → Run Nat
  | 0, _, _ => Run.demand none
  | rounds + 1, low, high =>
    if low < high then do
      let gap ← Run.demand (sub? high low)
      let middle ← Run.demand (add? low (gap / 2))
      if ← test middle then
        let next ← Run.demand (add? middle 1)
        search test rounds next high
      else search test rounds low middle
    else return low

/-- The number of the last record that starts at or before an address. -/
def floor? (r : Index.Reader) (a : Address) : Run (Option Nat) := do
  let count ← search (fun i => do return decide ((← firstOf r i) ≤ a)) 64 0 r.size
  return sub? count 1

/-- The last address of a record. -/
def bounds : Walk Address := do
  let _ ← Walk.address
  Walk.address

/-- The location of a record that is said to begin at a place and to have so many bytes. -/
def locationAt (r : Index.Reader) (index start length : Nat) : Run Location := do
  let stop ← Run.demand (add? start length)
  match (slice? r.content start stop).filter fun _ => stop ≤ r.header.table with
  | none => throw (.index (.location index))
  | some bytes =>
    let (location, _) ← Walk.location.runOn bytes
    return location

/-- The location of a record, if an address does not lie behind its end. -/
def decodeRecord (r : Index.Reader) (index : Nat) (a : Address) : Run (Option Location) := do
  let buffer ← record r index
  let (last, c) ← bounds ⟨buffer, 0⟩
  if last < a then return none
  else
    let (length, c) ← Walk.word c
    let place ← placeOf r index
    let start ← Run.demand (add? place c.position)
    return some (← locationAt r index start length)

/-- The location for an address, and the reader with its cache used. -/
def lookup (r : Index.Reader) (a : Address) :
    Option (Except Error (Option Location) × Index.Reader) := do
  match ← (floor? r a).run with
  | .error e => return (.error e, r)
  | .ok none => return (.ok none, r)
  | .ok (some index) =>
    match r.cache.bind (·.get index) with
    | some (location, cache) =>
      return (.ok (if location.span.contains a then some location else none),
        { r with cache := some cache })
    | none =>
      match ← (decodeRecord r index a).run with
      | .error e => return (.error e, r)
      | .ok none => return (.ok none, r)
      | .ok (some location) =>
        return (.ok (some location), { r with cache := r.cache.map (·.put index location) })

/-- The answer to an address: a failure is no answer, and a remark. -/
def get (r : Index.Reader) (a : Address) : Option (Option Location × Index.Reader × Journal) := do
  match ← lookup r a with
  | (.ok location, r) => return (location, r, [])
  | (.error e, r) =>
    return (none, r, [⟨.error, s!"index lookup for {a} failed: {e.message}"⟩])

/-- The reader when some addresses have been looked up. -/
def afterLookups (r : Index.Reader) (asked : List Address) : Option Index.Reader :=
  asked.foldlM (fun r a => (lookup r a).map (·.2)) r

/-! ## None of them is broken off -/

/-- **A search that halves its interval** needs no more rounds than its size has bits, and one to see
that nothing is left. -/
theorem search_eq {test : Nat → Run Bool} {test' : Nat → Except Error Bool} {bits low high : Nat}
    (hbits : high - low < 2 ^ bits) (hword : high < wordCount)
    (h : ∀ i, i < high → test i = Run.ended (test' i)) :
    search test (bits + 1) low high = Run.ended (firstFailureM test' low high) := by
  induction bits generalizing low high with
  | zero =>
    have hle : ¬ low < high := by omega
    rw [search, if_neg hle, firstFailureM, dif_neg hle]
    rfl
  | succ bits ih =>
    rw [Nat.pow_succ] at hbits
    rw [search, firstFailureM]
    by_cases hlt : low < high
    · have hmiddle : low + (high - low) / 2 < high := by omega
      rw [if_pos hlt, dif_pos hlt, sub?_eq (Nat.le_of_lt hlt), Run.demand_some,
        Run.ended_ok_bind, add?_eq (by omega), Run.demand_some, Run.ended_ok_bind, h _ hmiddle]
      dsimp only
      cases test' (low + (high - low) / 2) with
      | error e => rfl
      | ok holds =>
        cases holds with
        | true =>
          rw [Run.ended_ok_bind, if_pos rfl, add?_eq (by omega), Run.demand_some,
            Run.ended_ok_bind]
          exact ih (by omega) hword h
        | false =>
          rw [Run.ended_ok_bind, if_neg Bool.false_ne_true]
          exact ih (by omega) (by omega) fun i hi => h i (by omega)
    · rw [if_neg hlt, dif_neg hlt]
      rfl

theorem agrees_bounds : Walk.Agrees bounds Index.Reader.bounds :=
  Walk.agrees_address.bind fun _ => Walk.agrees_address

section

variable {r : Index.Reader} (h : r.Sound) (hsmall : r.content.length < 2 ^ 63)

include h hsmall

/-- **Where a record begins** is read from a slot that lies in the file. -/
theorem placeOf_eq {index : Nat} (hindex : index < r.size) :
    placeOf r index = Run.ended (r.placeOf index) := by
  have hslot : r.header.table + slotSize * index + slotSize ≤ r.content.length := by
    have hmul : slotSize * (index + 1) ≤ slotSize * r.size := Nat.mul_le_mul_left _ hindex
    rw [Nat.mul_succ] at hmul
    rw [← h.table_le]
    omega
  have hword : wordCount = 2 ^ 64 := rfl
  have hbytes : (r.content.take (r.header.table + slotSize * index + slotSize)).drop
      (r.header.table + slotSize * index) =
      (r.content.drop (r.header.table + slotSize * index)).take slotSize := by
    rw [List.drop_take, Nat.add_sub_cancel_left]
  have hlen : ((r.content.drop (r.header.table + slotSize * index)).take slotSize).length =
      slotSize := by
    rw [List.length_take, List.length_drop]
    omega
  rw [placeOf, mul?_eq (by rw [Nat.mul_comm]; omega), Nat.mul_comm, Run.demand_some,
    Run.ended_ok_bind, add?_eq (by omega), Run.demand_some, Run.ended_ok_bind, add?_eq (by omega),
    Run.demand_some, Run.ended_ok_bind, slice?_eq (Nat.le_add_right _ _) hslot, hbytes]
  dsimp only
  rw [if_pos hlen, Run.demand_some, Run.ended_ok_bind, Index.Reader.placeOf]
  dsimp only
  rw [if_neg (Nat.not_lt_of_le hslot), Index.numberAt]
  split <;> rfl

/-- The records section from a record on lies in the file. -/
theorem record_eq {index : Nat} (hindex : index < r.size) :
    record r index = Run.ended ((r.placeOf index).map r.recordsFrom) := by
  have htable : r.header.table ≤ r.content.length := by
    rw [← h.table_le]
    exact Nat.le_add_right _ _
  rw [record, placeOf_eq h hsmall hindex]
  cases hplace : r.placeOf index with
  | error e => rfl
  | ok place =>
    rw [Run.ended_ok_bind,
      slice?_eq (Nat.le_of_lt (Index.Reader.placeOf_bounds hplace).2) htable]
    rfl

theorem length_recordsFrom_lt (place : Nat) : (r.recordsFrom place).length < wordCount := by
  have hle := r.length_recordsFrom_le place
  have htable := h.table_le
  have hword : wordCount = 2 ^ 64 := rfl
  omega

theorem firstOf_eq {index : Nat} (hindex : index < r.size) :
    firstOf r index = Run.ended (r.firstOf index) := by
  rw [firstOf, record_eq h hsmall hindex, Index.Reader.firstOf]
  cases r.placeOf index with
  | error e => rfl
  | ok place =>
    show (Walk.address.runOn (r.recordsFrom place) >>= _) = _
    rw [Walk.agrees_address.runOn (length_recordsFrom_lt h hsmall place)]
    show _ = Run.ended (Codec.Read.address.runOn (r.recordsFrom place) >>= _)
    cases Codec.Read.address.runOn (r.recordsFrom place) <;> rfl

theorem size_lt : r.size < 2 ^ 63 := by
  have htable := h.table_le
  have hslot : slotSize = 8 := rfl
  rw [hslot] at htable
  omega

/-- **The search of the table** asks for records that there are, and ends. -/
theorem floor?_eq (a : Address) : floor? r a = Run.ended (r.floor? a) := by
  have hsize := size_lt h hsmall
  have hword : wordCount = 2 ^ 64 := rfl
  have hsearch : search (fun i => do return decide ((← firstOf r i) ≤ a)) 64 0 r.size =
      Run.ended (firstFailureM (fun i => (r.firstOf i).map fun first => decide (first ≤ a)) 0
        r.size) := by
    refine search_eq (by omega) (by omega) fun i hi => ?_
    rw [firstOf_eq h hsmall hi]
    cases r.firstOf i <;> rfl
  rw [floor?, hsearch, Index.Reader.floor?]
  cases firstFailureM (fun i => (r.firstOf i).map fun first => decide (first ≤ a)) 0 r.size with
  | error e => rfl
  | ok count => cases count <;> rfl

/-- **A location that is said to go on behind the records section** is refused before it is cut
out. -/
theorem locationAt_eq (index : Nat) {start length : Nat} (hstart : start ≤ r.header.table)
    (hlength : length < 2 ^ 32) :
    locationAt r index start length =
      Run.ended (if r.header.table < start + length then .error (.index (.location index))
        else Codec.decodeLocation ((r.recordsFrom start).take length)) := by
  have htable := h.table_le
  have hword : wordCount = 2 ^ 64 := rfl
  rw [locationAt, add?_eq (by omega), Run.demand_some, Run.ended_ok_bind]
  by_cases hlong : r.header.table < start + length
  · have hnone : (slice? r.content start (start + length)).filter
        (fun _ => start + length ≤ r.header.table) = none := by
      rw [Option.filter_eq_none_iff]
      intro _ _
      simpa using hlong
    rw [if_pos hlong, hnone]
    rfl
  · have hstop : start + length ≤ r.content.length := by omega
    have hlt : ((r.recordsFrom start).take length).length < wordCount := by
      rw [List.length_take]
      exact Nat.lt_of_le_of_lt (Nat.min_le_right _ _) (length_recordsFrom_lt h hsmall start)
    rw [if_neg hlong, slice?_eq (Nat.le_add_right _ _) hstop, Option.filter_some,
      if_pos (by simpa using hlong), ← Index.Reader.recordsFrom_take (Nat.le_of_not_lt hlong)]
    dsimp only
    rw [Walk.agrees_location.runOn hlt, Codec.decodeLocation]
    cases Codec.Read.location.runOn ((r.recordsFrom start).take length) <;> rfl

/-- **Decoding a record** reads no further than the records section goes. -/
theorem decodeRecord_eq {index : Nat} (hindex : index < r.size) (a : Address) :
    decodeRecord r index a = Run.ended (r.decodeRecord index a) := by
  rw [decodeRecord, record_eq h hsmall hindex, placeOf_eq h hsmall hindex,
    Index.Reader.decodeRecord]
  cases hplace : r.placeOf index with
  | error e => rfl
  | ok place =>
    have hbuffer := length_recordsFrom_lt h hsmall place
    have hrun := agrees_bounds ⟨r.recordsFrom place, 0⟩ hbuffer (Nat.zero_le _)
    dsimp only at hrun
    rw [List.drop_zero] at hrun
    show (bounds ⟨r.recordsFrom place, 0⟩ >>= _) =
      Run.ended (Index.Reader.bounds.runOn (r.recordsFrom place) >>= _)
    rw [Codec.Read.runOn, Codec.Reader.start]
    cases hbounds : Index.Reader.bounds ⟨0, r.recordsFrom place⟩ with
    | error e r' =>
      rw [hbounds] at hrun
      rw [show bounds _ = Run.ended (.error e) from hrun]
      rfl
    | ok last r₁ =>
      obtain ⟨used, rest⟩ := r₁
      rw [hbounds] at hrun
      obtain ⟨hused, hrest, hrun⟩ := hrun
      dsimp only at hused hrest hrun
      subst hrest
      rw [hrun]
      show (if last < a then _ else _) = Run.ended (if last < a then _ else _)
      by_cases hlast : last < a
      · rw [if_pos hlast, if_pos hlast]
        rfl
      rw [if_neg hlast, if_neg hlast]
      have hboth : (Index.Reader.bounds *> Codec.Read.word) ⟨0, r.recordsFrom place⟩ =
          Codec.Read.word ⟨used, (r.recordsFrom place).drop used⟩ := by
        show EStateM.bind Index.Reader.bounds (fun _ => Codec.Read.word) _ = _
        rw [EStateM.bind, hbounds]
      have hword := Walk.agrees_word ⟨r.recordsFrom place, used⟩ hbuffer hused
      rw [Codec.Read.runOn, Codec.Reader.start, hboth]
      dsimp only at hword
      cases hlength : Codec.Read.word ⟨used, (r.recordsFrom place).drop used⟩ with
      | error e r' =>
        rw [hlength] at hword
        rw [show Walk.word _ = Run.ended (.error e) from hword]
        rfl
      | ok length r₂ =>
        rw [hlength] at hword
        obtain ⟨hused', -, hword⟩ := hword
        have hstart : place + r₂.position ≤ r.header.table := by
          have hroom := r.length_recordsFrom_le place
          have hplaces := Index.Reader.placeOf_bounds hplace
          omega
        have htable := h.table_le
        have hcount : wordCount = 2 ^ 64 := rfl
        rw [hword, Run.ended_ok_bind]
        show (Run.demand (add? place r₂.position) >>= _) = _
        rw [add?_eq (by omega), Run.demand_some, Run.ended_ok_bind,
          locationAt_eq h hsmall index hstart (Codec.Read.rest_of_word hlength).1]
        show (_ >>= _) = Run.ended (if r.header.table < place + r₂.position + length then _ else _)
        split
        · rfl
        · cases Codec.decodeLocation ((r.recordsFrom (place + r₂.position)).take length) <;> rfl

/-- **A lookup is not broken off**, and is the lookup. -/
theorem lookup_eq (a : Address) : lookup r a = some (r.lookup a) := by
  rw [lookup, floor?_eq h hsmall, Index.Reader.lookup]
  simp only [Run.run_ended, Option.bind_eq_bind, Option.bind_some, Option.pure_def]
  cases hfloor : r.floor? a with
  | error e => rfl
  | ok found =>
    cases found with
    | none => rfl
    | some index =>
      dsimp only
      cases r.cache.bind (·.get index) with
      | some hit => rfl
      | none =>
        dsimp only
        rw [decodeRecord_eq h hsmall (Index.Reader.lt_size_of_floor? hfloor)]
        simp only [Run.run_ended, Option.bind_some]
        rcases r.decodeRecord index a with _ | _ | location <;> rfl

theorem get_eq (a : Address) : get r a = some (r.get a) := by
  rw [get, lookup_eq h hsmall, Index.Reader.get]
  rcases r.lookup a with ⟨_ | location, r'⟩ <;> rfl

end

theorem afterLookups_eq {r : Index.Reader} (h : r.Sound) (hsmall : r.content.length < 2 ^ 63)
    (asked : List Address) :
    afterLookups r asked = some (r.afterLookups asked) := by
  induction asked generalizing r with
  | nil => rfl
  | cons a asked ih =>
    obtain ⟨-, hsound, hcontent, -⟩ := h.lookup a
    rw [afterLookups, List.foldlM_cons, lookup_eq h hsmall]
    exact ih hsound (by rwa [hcontent])

end IpAtlas.Checked

namespace IpAtlas.Index.Reader

/-- **A file may hold anything.**  It is taken for an index if and only if its header describes it,
and told to be none otherwise: an index that was written is taken, and one that was cut or goes on is
not.  Whatever else a file holds that is taken, whatever room there is to remember locations and
whatever was asked before, a lookup on a machine with words of 64 bits is not broken off by an
overflow, an access out of bounds or a search that does not end; and if it answers, then with a
location over a range that was decoded from bytes between the header and the table. -/
theorem safe_of_any_bytes {disk : Disk} {path : Path} {bs : Bytes} (hmap : disk.map path = .ok bs)
    (hsize : bs.length < 2 ^ 63) :
    ((∃ r, Reader.open disk path = .ok r) ↔ Header.Describes bs) ∧
    (¬ Header.Describes bs → ∃ fault, Reader.open disk path = .error (.index fault)) ∧
    (∀ (w : Writer) (before : Disk) (remarks : Journal),
      w.finish before = (.ok path, disk, remarks) → Header.Describes bs) ∧
    (Header.Describes bs → ∀ (disk' : Disk) (path' : Path) (bs' : Bytes),
      disk'.map path' = .ok bs' → bs' <+: bs ∨ bs <+: bs' → bs' ≠ bs →
        ∃ fault, Reader.open disk' path' = .error (.index fault)) ∧
    ∀ (r : Reader), Reader.open disk path = .ok r →
      ∀ (capacity : Nat) (asked : List Address) (a : Address) (next : Reader),
        next = (r.withCache capacity).afterLookups asked →
        Checked.afterLookups (r.withCache capacity) asked = some next ∧
        Checked.get next a = some (next.get a) ∧
        ∀ location, (next.get a).1 = some location → location.span.Valid ∧
          ∃ start stop, headerSize ≤ start ∧ start ≤ stop ∧ stop ≤ numberAt bs 32 8 ∧
            Codec.decodeLocation ((bs.take stop).drop start) = .ok location := by
  have hword : bs.length < Checked.wordCount := Nat.lt_trans hsize (by decide)
  have htaken : (∃ r, Reader.open disk path = .ok r) ↔ Header.Describes bs := by
    rw [open_eq hmap, ← Header.describes_iff hword]
    constructor
    · rintro ⟨r, hopen⟩
      obtain ⟨header, hread, -⟩ := ofBytes_eq_ok_iff.1 hopen
      exact ⟨header, hread⟩
    · rintro ⟨header, hread⟩
      exact ⟨_, ofBytes_eq_ok_iff.2 ⟨header, hread, rfl⟩⟩
  refine ⟨htaken, fun hnot => ?_, fun w before remarks hfinish => ?_, ?_, ?_⟩
  · rw [open_eq hmap]
    exact exists_fault_of_ofBytes fun r hopen =>
      hnot (htaken.1 ⟨r, (open_eq hmap).trans hopen⟩)
  · obtain rfl := Except.ok.inj (hmap.symm.trans (Writer.map_of_finish hfinish))
    exact Header.describes_image hword
  · intro hdescribes disk' path' bs' hmap' hcut hne
    obtain ⟨r, hopen⟩ := htaken.2 hdescribes
    rw [open_eq hmap] at hopen
    rw [open_eq hmap']
    exact ofBytes_of_prefix hopen hcut hne
  · rintro r hopen capacity asked a next rfl
    rw [open_eq hmap] at hopen
    have hsound := sound_of_ofBytes hopen capacity
    obtain ⟨header, hread, rfl⟩ := ofBytes_eq_ok_iff.1 hopen
    obtain ⟨hnext, hcontent, hheader⟩ := hsound.afterLookups asked
    refine ⟨Checked.afterLookups_eq hsound hsize asked,
      Checked.get_eq hnext (by rwa [hcontent]) a, fun location hanswer => ?_⟩
    rw [(get_eq _ a).1, Option.join_eq_some_iff] at hanswer
    obtain ⟨hvalid, start, stop, hstart, hle, hstop, hdecode⟩ :=
      (hnext.lookup a).1 location (eq_ok_of_toOption hanswer)
    obtain ⟨-, -, -, -, -, -, hheader'⟩ := Header.read_eq_ok_iff.1 hread
    refine ⟨hvalid, start, stop, hstart, hle, ?_, ?_⟩
    · rw [hheader, hheader'] at hstop
      exact hstop
    · rw [hcontent] at hdecode
      exact hdecode

/-- A file of one record: its first key is one, what follows is not.  It is taken all the same, but
not without its last byte; and lookups are not broken off. -/
theorem safe_of_any_bytes_garbage :
    ∃ (disk cut : Disk) (path : Path) (bs : Bytes) (r : Reader) (a : Address),
      disk.map path = .ok bs ∧ Reader.open disk path = .ok r ∧ Header.Describes bs ∧
      cut.map path = .ok bs.dropLast ∧
      (∃ fault, Reader.open cut path = .error (.index fault)) ∧
      (r.get a).1 = none ∧
      Checked.get ((r.withCache 1).afterLookups [a]) a =
        some (((r.withCache 1).afterLookups [a]).get a) := by
  let bs : Bytes := Header.encode ⟨1, 48⟩ ++ [4, 0, 0, 0, 9, 99, 255, 255] ++ encodeSlot 40
  let disk : Disk := { entries := [(["ranges.idx"], .file bs)] }
  let cut : Disk := { entries := [(["ranges.idx"], .file bs.dropLast)] }
  let path : Path := ⟨"ranges.idx"⟩
  let a : Address := ⟨.v4, 10, by decide⟩
  have hmap : disk.map path = .ok bs := by decide +kernel
  have hcut : cut.map path = .ok bs.dropLast := by decide +kernel
  have hopened : (Reader.open disk path).toOption.any (fun r => (r.get a).1.isNone) = true := by
    decide +kernel
  obtain ⟨r, hopen, hnone⟩ := (Option.any_eq_true _ _).1 hopened
  have hopen := eq_ok_of_toOption hopen
  obtain ⟨htaken, -, -, hrejected, hsafe⟩ := safe_of_any_bytes hmap (by decide)
  have hdescribes := htaken.1 ⟨r, hopen⟩
  refine ⟨disk, cut, path, bs, r, a, hmap, hopen, hdescribes, hcut,
    hrejected hdescribes cut path _ hcut (Or.inl (List.dropLast_prefix bs)) (by decide),
    Option.isNone_iff_eq_none.1 hnone, (hsafe r hopen 1 [a] a _ rfl).2.1⟩

end IpAtlas.Index.Reader
