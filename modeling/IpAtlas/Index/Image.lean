import IpAtlas.Codec

/-!
# The image of an index file

An index file has three sections: a header of forty bytes, the records, and a table with the place
of every record.  The header tells a magic word, the version of the format, the number of records
and where the other sections begin.  A record is the two bounds of its span as keys, the length of
its location, and the location.  All numbers are written with the least significant byte first.

The table makes a record of any size reachable by its number, which is all that a binary search
needs.

## What is here

* `encodeEntry` — a record.
* `Header.encode`, `places`, `image` — the three sections.
* `Header.read` — the header of some bytes, if its sections are those of a file of that size.
-/

set_option autoImplicit false

namespace IpAtlas.Index

/-- The word an index file begins with. -/
def magic : Bytes := [0x47, 0x45, 0x4F, 0x52, 0x41, 0x4E, 0x47, 0x45]

/-- The version of the format. -/
def version : Nat := 1

/-- The size of the header, after which the records begin. -/
def headerSize : Nat := 40

/-- The size of a slot of the table. -/
def slotSize : Nat := 8

/-- A number in a slot of its own. -/
def encodeSlot (n : Nat) : Bytes := Bytes.ofNatLE slotSize n

/-- A record. -/
def encodeEntry (e : Entry) : Bytes :=
  let location := Codec.encodeLocation e.location
  Codec.encodeAddress e.span.first ++ Codec.encodeAddress e.span.last ++
    Codec.encodeWord location.length ++ location

/-- What the header of a file tells. -/
structure Header where
  /-- How many records there are. -/
  entries : Nat
  /-- Where the table begins. -/
  table : Nat
  deriving DecidableEq, Repr

/-- A header as bytes.  The word after the version means nothing yet. -/
def Header.encode (h : Header) : Bytes :=
  magic ++ Bytes.ofNatLE 4 version ++ Bytes.ofNatLE 4 0 ++ encodeSlot h.entries ++
    encodeSlot headerSize ++ encodeSlot h.table

/-- Where records begin when the first of them begins at `start`. -/
def places (start : Nat) : List Bytes → List Nat
  | [] => []
  | record :: records => start :: places (start + record.length) records

/-- The whole file for some entries. -/
def image (entries : List Entry) : Bytes :=
  let records := entries.map encodeEntry
  let body := records.flatten
  Header.encode ⟨entries.length, headerSize + body.length⟩ ++ body ++
    (places headerSize records).flatMap encodeSlot

/-- The number that `count` bytes from a place on spell. -/
def numberAt (bs : Bytes) (place count : Nat) : Nat :=
  Bytes.toNatLE ((bs.drop place).take count)

/-- The header of some bytes.  Their size must be that of the sections it tells of. -/
def Header.read (bs : Bytes) : Except Fault Header :=
  if bs.length < headerSize then .error (.tooSmall bs.length)
  else if bs.take 8 ≠ magic then .error (.badMagic magic (bs.take 8))
  else if numberAt bs 8 4 ≠ version then .error (.unsupportedVersion (numberAt bs 8 4))
  else
    let entries := numberAt bs 16 8
    let records := numberAt bs 24 8
    let table := numberAt bs 32 8
    if records = headerSize ∧ records ≤ table ∧ table + slotSize * entries = bs.length then
      .ok ⟨entries, table⟩
    else .error (.sections bs.length records table entries)

end IpAtlas.Index
