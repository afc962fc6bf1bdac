/-!
# Numbers as bytes

Addresses are written with their most significant byte first, everything else in an index file with
its least significant byte first.  Both are lists of a fixed length; a number that needs more bytes
loses the upper ones.

## What is here

* `capacity` — how many numbers some bytes can spell.
* `ofNatLE`, `toNatLE` — least significant byte first.
* `ofNatBE`, `toNatBE` — most significant byte first.
-/

set_option autoImplicit false

namespace IpAtlas

/-- Raw contents: files, keys, encoded payloads. -/
abbrev Bytes := List UInt8

namespace Bytes

/-- Bytes with others written over them from a place on, further than they reach if need be. -/
def overwrite (place : Nat) (patch bs : Bytes) : Bytes :=
  let bs := bs ++ List.replicate (place - bs.length) 0
  bs.take place ++ patch ++ bs.drop (place + patch.length)

/-- How many numbers `count` bytes can spell. -/
def capacity : Nat → Nat
  | 0 => 1
  | count + 1 => 256 * capacity count

/-- The lowest `count` bytes of a number, least significant first. -/
def ofNatLE : Nat → Nat → Bytes
  | 0, _ => []
  | count + 1, n => UInt8.ofNat (n % 256) :: ofNatLE count (n / 256)

/-- The number some bytes spell, least significant first. -/
def toNatLE : Bytes → Nat
  | [] => 0
  | b :: bs => b.toNat + 256 * toNatLE bs

/-- The lowest `count` bytes of a number, most significant first. -/
def ofNatBE (count n : Nat) : Bytes := (ofNatLE count n).reverse

/-- The number some bytes spell, most significant first. -/
def toNatBE (bs : Bytes) : Nat := toNatLE bs.reverse

@[simp] theorem length_ofNatLE (count n : Nat) : (ofNatLE count n).length = count := by
  induction count generalizing n with
  | zero => rfl
  | succ count ih => simp [ofNatLE, ih]

@[simp] theorem length_ofNatBE (count n : Nat) : (ofNatBE count n).length = count := by
  simp [ofNatBE]

theorem toNatLE_lt (bs : Bytes) : toNatLE bs < capacity bs.length := by
  induction bs with
  | nil => simp [toNatLE, capacity]
  | cons b bs ih =>
    have hb := b.toNat_lt
    simp only [toNatLE, List.length_cons, capacity]
    omega

theorem toNatBE_lt (bs : Bytes) : toNatBE bs < capacity bs.length := by
  simpa [toNatBE] using toNatLE_lt bs.reverse

theorem toNatLE_ofNatLE (count n : Nat) :
    toNatLE (ofNatLE count n) = n % capacity count := by
  induction count generalizing n with
  | zero => simp [ofNatLE, toNatLE, capacity, Nat.mod_one]
  | succ count ih =>
    have h : (UInt8.ofNat (n % 256)).toNat = n % 256 := by
      simp [UInt8.toNat_ofNat']
    rw [ofNatLE, toNatLE, ih, h, capacity, Nat.mod_mul]

theorem ofNatLE_toNatLE (bs : Bytes) : ofNatLE bs.length (toNatLE bs) = bs := by
  induction bs with
  | nil => rfl
  | cons b bs ih =>
    have hb := b.toNat_lt
    have h1 : (b.toNat + 256 * toNatLE bs) % 256 = b.toNat := by omega
    have h2 : (b.toNat + 256 * toNatLE bs) / 256 = toNatLE bs := by omega
    simp [ofNatLE, toNatLE, h1, h2, ih]

theorem toNatBE_ofNatBE (count n : Nat) :
    toNatBE (ofNatBE count n) = n % capacity count := by
  simp [toNatBE, ofNatBE, toNatLE_ofNatLE]

theorem ofNatBE_toNatBE (bs : Bytes) : ofNatBE bs.length (toNatBE bs) = bs := by
  have h := ofNatLE_toNatLE bs.reverse
  simp only [List.length_reverse] at h
  simp [ofNatBE, toNatBE, h]

end Bytes

end IpAtlas
