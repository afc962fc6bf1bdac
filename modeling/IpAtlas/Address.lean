import IpAtlas.Bytes

/-!
# Addresses

An address is a number below the size of its family: 2³² for IPv4, 2¹²⁸ for IPv6.  Keeping the
number, and not its bytes, makes every comparison and every step plain arithmetic; the bytes are
read off when a key is written.

One order covers both families.  `Address.rank` places the IPv4 addresses first, each at its own
number, and the IPv6 addresses after them, so that "between two addresses of one family" never
meets an address of the other.

## What is here

* `Family`, `Address` — the types, with `Address.ofNat?` for numbers that may be too large.
* `Address.rank` and the order it gives.
* `Address.succ?`, `Address.pred?` — the neighbours within the family.
* `Address.bytes`, `Address.ofBytes?` — the big-endian form.
-/

set_option autoImplicit false

namespace IpAtlas

/-- The two address families. -/
inductive Family where
  | v4
  | v6
  deriving DecidableEq, Repr

namespace Family

/-- How many bytes an address of the family has. -/
def byteCount : Family → Nat
  | v4 => 4
  | v6 => 16

/-- How many addresses the family has. -/
def size (family : Family) : Nat := Bytes.capacity family.byteCount

/-- Where the family begins in the order of all addresses. -/
def base : Family → Nat
  | v4 => 0
  | v6 => v4.size

end Family

/-- An address of either family. -/
structure Address where
  family : Family
  value : Nat
  value_lt : value < family.size
  deriving DecidableEq, Repr

namespace Address

/-- The address with a given number, if the family is that large. -/
def ofNat? (family : Family) (value : Nat) : Option Address :=
  if h : value < family.size then some ⟨family, value, h⟩ else none

/-! ## The order -/

/-- The place of an address among all addresses: IPv4 first, then IPv6, each by number. -/
def rank (a : Address) : Nat := a.family.base + a.value

instance : LE Address := ⟨fun a b => a.rank ≤ b.rank⟩

instance : LT Address := ⟨fun a b => a.rank < b.rank⟩

instance : Ord Address := ⟨fun a b => compare a.rank b.rank⟩

instance (a b : Address) : Decidable (a ≤ b) := inferInstanceAs (Decidable (a.rank ≤ b.rank))

instance (a b : Address) : Decidable (a < b) := inferInstanceAs (Decidable (a.rank < b.rank))

theorem le_iff_rank (a b : Address) : a ≤ b ↔ a.rank ≤ b.rank := Iff.rfl

theorem lt_iff_rank (a b : Address) : a < b ↔ a.rank < b.rank := Iff.rfl

/-- An address that lies between two of one family belongs to it. -/
theorem family_eq_of_between {a b c : Address} (h : a.family = c.family) (hab : a ≤ b)
    (hbc : b ≤ c) : b.family = a.family := by
  obtain ⟨fa, va, ha⟩ := a
  obtain ⟨fb, vb, hb⟩ := b
  obtain ⟨fc, vc, hc⟩ := c
  simp only at h
  subst h
  simp only [le_iff_rank, rank] at hab hbc
  show fb = fa
  have hb' : vb < fb.size := hb
  have hc' : vc < fa.size := hc
  cases fa <;> cases fb <;>
    simp only [Family.base, Family.size, Family.byteCount, Bytes.capacity, reduceCtorEq]
      at hab hbc hb' hc' ⊢ <;>
    omega

/-- Within one family the order is the order of the numbers. -/
theorem le_iff_value {a b : Address} (h : a.family = b.family) : a ≤ b ↔ a.value ≤ b.value := by
  simp [le_iff_rank, rank, h]

theorem lt_iff_value {a b : Address} (h : a.family = b.family) : a < b ↔ a.value < b.value := by
  simp [lt_iff_rank, rank, h]

/-! ## Neighbours -/

/-- The next address of the family, none after its last. -/
def succ? (a : Address) : Option Address := ofNat? a.family (a.value + 1)

/-- The previous address of the family, none before its first. -/
def pred? (a : Address) : Option Address :=
  if a.value = 0 then none else ofNat? a.family (a.value - 1)

/-- The previous address, given that some address of the family lies below. -/
def before (a : Address) : Address :=
  ⟨a.family, a.value - 1, Nat.lt_of_le_of_lt (Nat.sub_le _ _) a.value_lt⟩

/-! ## Bytes -/

/-- The address as bytes, most significant first. -/
def bytes (a : Address) : Bytes := Bytes.ofNatBE a.family.byteCount a.value

/-- The address of a family that exactly its number of bytes spell. -/
def ofFamilyBytes (family : Family) (bs : Bytes) (h : bs.length = family.byteCount) : Address :=
  ⟨family, Bytes.toNatBE bs, by
    have := Bytes.toNatBE_lt bs
    rwa [h] at this⟩

/-- The address four or sixteen bytes spell; no other number of bytes is an address. -/
def ofBytes? (bs : Bytes) : Option Address :=
  if h : bs.length = Family.v4.byteCount then some (ofFamilyBytes .v4 bs h)
  else if h : bs.length = Family.v6.byteCount then some (ofFamilyBytes .v6 bs h)
  else none

@[simp] theorem length_bytes (a : Address) : a.bytes.length = a.family.byteCount := by
  simp [bytes]

theorem ofBytes?_bytes (a : Address) : ofBytes? a.bytes = some a := by
  obtain ⟨family, value, h⟩ := a
  have hmod : value % Bytes.capacity family.byteCount = value := Nat.mod_eq_of_lt h
  cases family <;>
    simp [ofBytes?, ofFamilyBytes, bytes, Family.byteCount, Bytes.toNatBE_ofNatBE] <;>
    exact hmod

end Address

end IpAtlas
