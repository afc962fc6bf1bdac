import IpAtlas.Gzip.Checksum
import IpAtlas.Gzip.Inflate
import IpAtlas.Stream

/-!
# Compressed streams

The format of RFC 1952: members one after the other, each with a header, compressed data, and the
checksum and size of what it restores to.

The first ten bytes of a header are needed before any of them is looked at.  A member whose data is
cut short has handed out what could be restored, and a member whose trailer is wrong has handed out
all of its data.

Of a member whose data is corrupt, whoever reads gets what was restored by the reads before the one
that comes upon the corruption: that read fails, and what it has restored itself is lost.  So it
matters how much is asked for at a time.

## What is here

* `header` — what follows the header of a member.
* `handedOut` — how much of a corrupt member is handed out.
* `restore` — the stream that compressed bytes stand for.
-/

set_option autoImplicit false

namespace IpAtlas.Gzip

/-- The first `count` bytes and the rest. -/
def splitBytes (count : Nat) (bs : Bytes) : Except IoError (Bytes × Bytes) :=
  if count ≤ bs.length then .ok (bs.take count, bs.drop count) else .error .endOfData

/-- The longest text of a header. -/
def maxText : Nat := 65535

/-- What follows a text that a zero byte ends, of which `length` bytes are read. -/
def afterText (length : Nat) : Bytes → Except IoError Bytes
  | [] => .error .endOfData
  | b :: bs =>
    if b = 0 then .ok bs
    else if length = maxText then .error .longHeader
    else afterText (length + 1) bs

/-- What follows a part of the header that a flag announces. -/
def optionalPart (flags : Nat) (bit : Nat) (bs : Bytes) (part : Bytes → Except IoError Bytes) :
    Except IoError Bytes :=
  if flags.testBit bit then part bs else .ok bs

/-- What follows the header at the front of some bytes. -/
def header (bs : Bytes) : Except IoError Bytes := do
  let (fixed, rest) ← splitBytes 10 bs
  let flags := (fixed[3]?.getD 0).toNat
  if fixed.take 3 ≠ [0x1F, 0x8B, 8] ∨ 32 ≤ flags then throw .badHeader
  let rest ← optionalPart flags 2 rest fun rest => do
    let (size, rest) ← splitBytes 2 rest
    return (← splitBytes (Bytes.toNatLE size) rest).2
  let rest ← optionalPart flags 3 rest (afterText 0)
  let rest ← optionalPart flags 4 rest (afterText 0)
  optionalPart flags 1 rest fun rest' => do
    let (sum, rest') ← splitBytes 2 rest'
    let read := bs.take (bs.length - rest.length)
    if Bytes.toNatLE sum = crc32 read % 65536 then return rest' else throw .badChecksum

/-- What follows the trailer of a member that restores to `output`. -/
def trailer (output : Bytes) (bs : Bytes) : Except IoError Bytes := do
  let (sums, rest) ← splitBytes 8 bs
  if Bytes.toNatLE (sums.take 4) = crc32 output ∧
      Bytes.toNatLE (sums.drop 4) = output.length % UInt32.size then
    return rest
  else throw .badChecksum

/-- The whole bytes at the end of some bits, given the bytes the bits come from. -/
def wholeBytes (bs : Bytes) (bits : List Bool) : Bytes := bs.drop (bs.length - bits.length / 8)

/-! ## Corrupt data -/

/-- How many restored bytes are put together before they are handed on. -/
def windowBytes : Nat := 32 * 1024

/-- How many compressed bytes are looked at together. -/
def portionBytes : Nat := 32 * 1024

/-- How many bytes of corrupt data are handed out to reads that ask for `asked` bytes each, when
`restored` bytes stand before the corruption and `start` of them are handed out.  A read restores
windows until it has what it was asked for. -/
def handedOut (asked restored start : Nat) : Nat :=
  let next := (start + asked + (windowBytes - 1)) / windowBytes * windowBytes
  if start < next ∧ next < restored then handedOut asked restored next else start
  termination_by restored - start

/-- How many bytes are restored from the portions that come before a corruption.  In front of the
data there are `offset` bytes. -/
def settled (offset : Nat) (data : Bytes) : Nat :=
  let ends := (List.range (data.length / portionBytes + 1)).map fun i =>
    portionBytes * (offset / portionBytes + 1 + i) - offset
  let sizes := ends.filterMap fun e =>
    match inflate (data.take e) with
    | .truncated output => some output.size
    | _ => none
  sizes.getLastD 0

/-! ## Members -/

/-- The members at the front of some bytes, the last of `total`, to reads that ask for `asked` bytes
each.  Every member takes at least ten bytes. -/
def members (asked total fuel : Nat) (bs : Bytes) : Stream :=
  match fuel with
  | 0 => ⟨[], none⟩
  | fuel + 1 =>
    match header bs with
    | .error e => .failing e
    | .ok data =>
      match inflate data with
      | .corrupt output =>
        let count := handedOut asked output.size (settled (total - data.length) data)
        ⟨output.toList.take count, some .badData⟩
      | .truncated output => ⟨output.toList, some .endOfData⟩
      | .complete output bits =>
        .prepend output.toList <|
          match trailer output.toList (wholeBytes data bits) with
          | .error e => .failing e
          | .ok [] => ⟨[], none⟩
          | .ok rest => members asked total fuel rest

/-- The stream that compressed bytes stand for, to reads that ask for `asked` bytes each. -/
def restore (asked : Nat) (bs : Bytes) : Stream := members asked bs.length (bs.length + 1) bs

end IpAtlas.Gzip
