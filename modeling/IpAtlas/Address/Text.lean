import IpAtlas.Address
import IpAtlas.Text.Blank

/-!
# Addresses as text

An IPv4 address is written as its four bytes in decimal.  An IPv6 address is written as its eight
groups of sixteen bits in lower-case hexadecimal, with the longest run of two or more zero groups,
the leftmost of equals, left out between two colons; an address that carries an IPv4 address behind
`::ffff:` shows that one in its own notation.

Reading is wider than writing.  Upper-case digits, leading zeros in a group, any one run of zero
groups left out, and an IPv4 address in the place of the last two groups are all accepted, and so
are blanks around the whole.  What is refused: a leading zero in a decimal byte, a group of five
digits, a `::` that stands for no group, an IPv4 address anywhere but at the end.

## What is here

* `groupsOf`, `ofGroups` — an IPv6 address as eight numbers below 2¹⁶.
* `Address.toText` — writing.
* `dotted?`, `groups`, `colons?` — readers that give back what they did not need.
* `Address.ofText?` — reading.
-/

set_option autoImplicit false

namespace IpAtlas

namespace AddressText

/-! ## Writing -/

/-- A number below 2³² as four decimal bytes. -/
def dotted (n : Nat) : List Char :=
  let byte := fun i => Nat.toDigits 10 (n / Bytes.capacity i % 256)
  byte 3 ++ '.' :: byte 2 ++ '.' :: byte 1 ++ '.' :: byte 0

/-- The eight groups of sixteen bits of a number below 2¹²⁸, the highest first. -/
def groupsOf (n : Nat) : List Nat :=
  [7, 6, 5, 4, 3, 2, 1, 0].map fun i => n / Bytes.capacity (2 * i) % 65536

/-- The number that groups of sixteen bits spell, the highest first. -/
def ofGroups (gs : List Nat) : Nat := gs.foldl (fun n g => 65536 * n + g) 0

/-- Groups in hexadecimal with colons between them. -/
def colonSeparated : List Nat → List Char
  | [] => []
  | [g] => Nat.toDigits 16 g
  | g :: gs => Nat.toDigits 16 g ++ ':' :: colonSeparated gs

/-- How many zero groups stand in front. -/
def zeroRun : List Nat → Nat
  | 0 :: gs => zeroRun gs + 1
  | _ => 0

/-- Where the longest run of zero groups begins, counted from `start`, and its length; the leftmost of
equals, and length zero if there is none. -/
def longestZeroRun (start : Nat) : List Nat → Nat × Nat
  | [] => (start, 0)
  | gs@(_ :: rest) =>
    let later := longestZeroRun (start + 1) rest
    if later.2 ≤ zeroRun gs then (start, zeroRun gs) else later

/-- An IPv6 address from its groups. -/
def compressed (gs : List Nat) : List Char :=
  let (start, length) := longestZeroRun 0 gs
  if 1 < length then
    colonSeparated (gs.take start) ++ ':' :: ':' :: colonSeparated (gs.drop (start + length))
  else colonSeparated gs

/-- The text of an address as characters. -/
def write (a : Address) : List Char :=
  match a.family with
  | .v4 => dotted a.value
  | .v6 =>
    if a.value / Family.v4.size = 0xFFFF then
      "::ffff:".toList ++ dotted (a.value % Family.v4.size)
    else compressed (groupsOf a.value)

/-! ## Reading -/

/-- The value of a hexadecimal digit in either case. -/
def hexDigit? (c : Char) : Option Nat :=
  if '0' ≤ c ∧ c ≤ '9' then some (c.toNat - '0'.toNat)
  else if 'a' ≤ c ∧ c ≤ 'f' then some (c.toNat - 'a'.toNat + 10)
  else if 'A' ≤ c ∧ c ≤ 'F' then some (c.toNat - 'A'.toNat + 10)
  else none

/-- The value of a decimal digit. -/
def decimalDigit? (c : Char) : Option Nat :=
  if '0' ≤ c ∧ c ≤ '9' then some (c.toNat - '0'.toNat) else none

/-- The digits in front, by value, and what follows them. -/
def digits (digit? : Char → Option Nat) : List Char → List Nat × List Char
  | [] => ([], [])
  | c :: cs =>
    match digit? c with
    | some d => let (ds, rest) := digits digit? cs; (d :: ds, rest)
    | none => ([], c :: cs)

/-- The number that digits spell in a base, the highest first. -/
def ofDigits (base : Nat) (ds : List Nat) : Nat := ds.foldl (fun n d => base * n + d) 0

/-- One decimal byte: up to three digits, no leading zero, at most 255. -/
def byte? (cs : List Char) : Option (Nat × List Char) :=
  let (ds, rest) := digits decimalDigit? cs
  if ds.length = 0 ∨ 3 < ds.length then none
  else if ds.head? = some 0 ∧ 1 < ds.length then none
  else if 255 < ofDigits 10 ds then none
  else some (ofDigits 10 ds, rest)

/-- One group: up to four hexadecimal digits. -/
def group? (cs : List Char) : Option (Nat × List Char) :=
  let (ds, rest) := digits hexDigit? cs
  if ds.length = 0 ∨ 4 < ds.length then none else some (ofDigits 16 ds, rest)

/-- What follows a given character. -/
def after? (c : Char) : List Char → Option (List Char)
  | d :: rest => if d = c then some rest else none
  | [] => none

/-- Four decimal bytes with dots between them, as a number below 2³². -/
def dotted? (cs : List Char) : Option (Nat × List Char) := do
  let (b3, cs) ← byte? cs
  let (b2, cs) ← byte? (← after? '.' cs)
  let (b1, cs) ← byte? (← after? '.' cs)
  let (b0, cs) ← byte? (← after? '.' cs)
  return (((b3 * 256 + b2) * 256 + b1) * 256 + b0, cs)

/-- As many groups as stand in front, at most `limit` of them; whether the last two were written as
an IPv4 address, after which no group can follow; and the rest.  A group other than the first is
preceded by a colon, which is left alone if no group follows it. -/
def groups (limit : Nat) (first : Bool) (cs : List Char) : List Nat × Bool × List Char :=
  match limit with
  | 0 => ([], false, cs)
  | more + 1 =>
    let body? := if first then some cs else after? ':' cs
    match if more = 0 then none else body?.bind dotted? with
    | some (n, rest) => ([n / 65536, n % 65536], true, rest)
    | none =>
      match body?.bind group? with
      | some (g, rest) =>
        let (gs, embedded, rest) := groups more false rest
        (g :: gs, embedded, rest)
      | none => ([], false, cs)

/-- The groups of an IPv6 address: eight of them, or fewer around a `::`. -/
def colons? (cs : List Char) : Option (List Nat × List Char) :=
  let (front, embedded, rest) := groups 8 true cs
  if front.length = 8 then some (front, rest)
  else if embedded then none
  else
    match rest with
    | ':' :: ':' :: rest =>
      let (back, _, rest) := groups (7 - front.length) true rest
      some (front ++ List.replicate (8 - front.length - back.length) 0 ++ back, rest)
    | _ => none

/-- The address that characters spell without blanks around them. -/
def read? (cs : List Char) : Option Address :=
  match dotted? cs with
  | some (n, rest) => if rest.isEmpty then Address.ofNat? .v4 n else none
  | none =>
    match colons? cs with
    | some (gs, []) => Address.ofNat? .v6 (ofGroups gs)
    | _ => none

end AddressText

namespace Address

/-- The text of an address. -/
def toText (a : Address) : String := String.ofList (AddressText.write a)

/-- The address a text spells, blanks around it aside. -/
def ofText? (s : String) : Option Address := AddressText.read? (Text.trimChars s.toList)

instance : ToString Address := ⟨toText⟩

end Address

end IpAtlas
