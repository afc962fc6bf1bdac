import IpAtlas.Cache
import IpAtlas.Disk
import IpAtlas.Index.Image
import IpAtlas.Journal
import IpAtlas.Search

/-!
# Looking things up in an index file

A reader keeps the bytes of the file it was opened on, so it goes on answering whatever happens to
the file.  A lookup searches the table for the last record that starts at or before the address,
compares the address with the end of that record, and decodes its location.  Decoded locations may
be kept in a cache by the number of their record; a location from the cache answers for the
addresses of its own span.

Only the header was checked when the file was opened.  Everything else is checked where it is used,
so a damaged file gives failures, which a lookup turns into remarks.

## What is here

* `Reader`, `Reader.ofBytes`, `Reader.open`, `Reader.withCache`.
* `Reader.floor?`, `Reader.lookup` — the search, and the location it leads to.
* `Reader.get` — the answer to an address.
-/

set_option autoImplicit false

namespace IpAtlas.Index

/-- An index file that was opened. -/
structure Reader where
  content : Bytes
  header : Header
  cache : Option (Cache Location) := none

namespace Reader

/-- The reader of some bytes. -/
def ofBytes (content : Bytes) : Except Error Reader :=
  match Header.read content with
  | .ok header => .ok { content, header }
  | .error fault => .error (.index fault)

/-- The reader of a file. -/
def «open» (disk : Disk) (path : Path) : Except Error Reader :=
  match disk.map path with
  | .ok content => ofBytes content
  | .error e => .error (.io e)

/-- The reader with room for some decoded locations. -/
def withCache (capacity : Nat) (r : Reader) : Reader := { r with cache := Cache.empty? capacity }

/-- How many records there are. -/
def size (r : Reader) : Nat := r.header.entries

/-- A reader as it is shown for debugging. -/
def summary (r : Reader) : String :=
  "FileDatabase \x7b " ++
    s!"size: {r.content.length}, entry_count: {r.size}, cached: {r.cache.isSome}" ++ " \x7d"

/-! ## Records -/

/-- Where a record begins. -/
def placeOf (r : Reader) (index : Nat) : Except Error Nat :=
  let slot := r.header.table + slotSize * index
  if r.content.length < slot + slotSize then .error (.index (.slot index))
  else
    let place := numberAt r.content slot slotSize
    if place < headerSize ∨ r.header.table ≤ place then .error (.index (.recordOffset place))
    else .ok place

/-- The bytes of the records section from a place on. -/
def recordsFrom (r : Reader) (place : Nat) : Bytes := (r.content.take r.header.table).drop place

/-- The first address of a record. -/
def firstOf (r : Reader) (index : Nat) : Except Error Address := do
  let place ← r.placeOf index
  return (← Codec.Read.address.runOn (r.recordsFrom place)).1

/-- The number of the last record that starts at or before an address. -/
def floor? (r : Reader) (a : Address) : Except Error (Option Nat) := do
  let count ← firstFailureM (fun i => (r.firstOf i).map fun first => first ≤ a) 0 r.size
  return if count = 0 then none else some (count - 1)

/-- The last address of a record. -/
def bounds : Codec.Read Address := do
  let _ ← Codec.Read.address
  Codec.Read.address

/-- The location of a record, if an address does not lie behind its end. -/
def decodeRecord (r : Reader) (index : Nat) (a : Address) : Except Error (Option Location) := do
  let place ← r.placeOf index
  let (last, _) ← bounds.runOn (r.recordsFrom place)
  if last < a then return none
  else
    let (length, used) ← (bounds *> Codec.Read.word).runOn (r.recordsFrom place)
    if r.header.table < place + used + length then throw (.index (.location index))
    else return some (← Codec.decodeLocation ((r.recordsFrom (place + used)).take length))

/-! ## Lookups -/

/-- The location for an address, and the reader with its cache used. -/
def lookup (r : Reader) (a : Address) : Except Error (Option Location) × Reader :=
  match r.floor? a with
  | .error e => (.error e, r)
  | .ok none => (.ok none, r)
  | .ok (some index) =>
    match r.cache.bind (·.get index) with
    | some (location, cache) =>
      (.ok (if location.span.contains a then some location else none),
        { r with cache := some cache })
    | none =>
      match r.decodeRecord index a with
      | .error e => (.error e, r)
      | .ok none => (.ok none, r)
      | .ok (some location) =>
        (.ok (some location), { r with cache := r.cache.map (·.put index location) })

/-- The answer to an address: a failure is no answer, and a remark. -/
def get (r : Reader) (a : Address) : Option Location × Reader × Journal :=
  match r.lookup a with
  | (.ok location, r) => (location, r, [])
  | (.error e, r) => (none, r, [⟨.error, s!"index lookup for {a} failed: {e.message}"⟩])

end Reader

end IpAtlas.Index
