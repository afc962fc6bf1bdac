import IpAtlas.Bytes

/-!
# The checksum of compressed streams

CRC-32 as RFC 1952 uses it: the remainder of the bytes as a polynomial over the field of two
elements, lowest bit first, by the polynomial `0xEDB88320`.

## What is here

* `crc32` — the checksum of some bytes.
-/

set_option autoImplicit false

namespace IpAtlas.Gzip

/-- One bit of the division. -/
def crcShift (c : UInt32) : UInt32 :=
  if c &&& 1 = 1 then (c >>> 1) ^^^ 0xEDB88320 else c >>> 1

/-- One byte of the division. -/
def crcByte (c : UInt32) (b : UInt8) : UInt32 :=
  (List.range 8).foldl (fun c _ => crcShift c) (c ^^^ b.toUInt32)

/-- The checksum of some bytes. -/
def crc32 (bs : Bytes) : Nat := ((bs.foldl crcByte 0xFFFFFFFF) ^^^ 0xFFFFFFFF).toNat

end IpAtlas.Gzip
