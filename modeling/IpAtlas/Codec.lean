import IpAtlas.Error

/-!
# Keys and locations as bytes

An index file stores addresses and locations in a compact form.  An address is a byte that tells
its length, four or sixteen, and its bytes.  A location is the two addresses of its span, a byte
that tells which fields are there, a byte for the flag, and the fields in a fixed order: strings
with their length in front, and the place number, in four bytes with the least significant first.
The top bit of the presence byte means nothing.

Reading walks forward through a buffer.  A read that would go past the end says so and stays where
it was; a key whose length byte is wrong has used up that byte.

## What is here

* `encodeAddress`, `encodeLocation` — writing.
* `Reader`, `Read` — a walk through a buffer, and a step of it.
* `Read.byte`, `Read.word`, `Read.address`, `Read.string`, `Read.location` — the steps.
* `decodeAddress`, `decodeLocation` — one value from the front of a buffer.
-/

set_option autoImplicit false

namespace IpAtlas.Codec

/-- The largest number of bytes a key takes. -/
def maxKeyLength : Nat := 17

/-! ## Writing -/

/-- An address with its length in front. -/
def encodeAddress (a : Address) : Bytes := UInt8.ofNat a.family.byteCount :: a.bytes

/-- A number in four bytes. -/
def encodeWord (n : Nat) : Bytes := Bytes.ofNatLE 4 n

/-- A string with its length in front. -/
def encodeString (s : String) : Bytes :=
  encodeWord (Utf8.encode s).length ++ Utf8.encode s

/-- A field that may be absent takes no room when it is. -/
def encodeField {α : Type} (encode : α → Bytes) : Option α → Bytes
  | none => []
  | some x => encode x

/-- Which fields of a location are there, one bit for each from the lowest. -/
def presence (l : Location) : List Bool :=
  [l.countryCode.isSome, l.geonameId.isSome, l.city.isSome, l.mostSpecificDivision.isSome,
    l.leastSpecificDivision.isSome, l.postalCode.isSome, l.sourceText.isSome]

/-- The byte whose bits, from the lowest, are the given ones. -/
def packBits : List Bool → Nat
  | [] => 0
  | b :: bs => b.toNat + 2 * packBits bs

/-- A location as bytes. -/
def encodeLocation (l : Location) : Bytes :=
  encodeAddress l.span.first ++ encodeAddress l.span.last ++
    [UInt8.ofNat (packBits (presence l)), l.vpn.tag] ++
    encodeField encodeString l.countryCode ++
    encodeField (fun n => encodeWord n.toNat) l.geonameId ++
    encodeField encodeString l.city ++
    encodeField encodeString l.mostSpecificDivision ++
    encodeField encodeString l.leastSpecificDivision ++
    encodeField encodeString l.postalCode ++
    encodeField encodeString l.sourceText

/-! ## Reading -/

/-- A walk through a buffer: how many bytes lie behind, and those that lie ahead. -/
structure Reader where
  position : Nat
  rest : Bytes
  deriving DecidableEq, Repr

namespace Reader

/-- A walk that has not begun. -/
def start (buffer : Bytes) : Reader := ⟨0, buffer⟩

/-- The size of the whole buffer. -/
def size (r : Reader) : Nat := r.position + r.rest.length

end Reader

/-- A step of a walk: it moves on and gives a value, or fails where it stands. -/
abbrev Read := EStateM Error Reader

namespace Read

/-- The next `count` bytes. -/
def take (count : Nat) : Read Bytes := fun r =>
  if count ≤ r.rest.length then
    .ok (r.rest.take count) ⟨r.position + count, r.rest.drop count⟩
  else .error (.codec (.overrun count r.position r.size)) r

/-- The next byte. -/
def byte : Read UInt8 := fun r =>
  match r.rest with
  | b :: rest => .ok b ⟨r.position + 1, rest⟩
  | [] => .error (.codec (.overrun 1 r.position r.size)) r

/-- The next four bytes as a number. -/
def word : Read Nat := do return Bytes.toNatLE (← take 4)

/-- The next address. -/
def address : Read Address := do
  let length := (← byte).toNat
  if length = 4 ∨ length = 16 then
    match Address.ofBytes? (← take length) with
    | some a => return a
    | none => throw (.codec (.keyLength length))
  else throw (.codec (.keyLength length))

/-- The next string. -/
def string : Read String := do
  let bytes ← take (← word)
  match Utf8.decode bytes with
  | .ok s => return s
  | .error fault => throw (.codec (.text (← get).position fault))

/-- The next value if a bit of the presence byte says that it is there. -/
def field {α : Type} (flags : UInt8) (bit : Nat) (read : Read α) : Read (Option α) :=
  if flags.toNat.testBit bit then some <$> read else pure none

/-- The next location.  Its flag is looked at before its span, and both before its fields. -/
def location : Read Location := do
  let first ← address
  let last ← address
  let flags ← byte
  let tag ← byte
  let some vpn := Flag.ofTag? tag | throw (.codec (.flagTag tag))
  if (Span.mk first last).Valid then
    let countryCode ← field flags 0 string
    let geonameId ← field flags 1 word
    let city ← field flags 2 string
    let mostSpecificDivision ← field flags 3 string
    let leastSpecificDivision ← field flags 4 string
    let postalCode ← field flags 5 string
    let sourceText ← field flags 6 string
    return { span := ⟨first, last⟩, countryCode, geonameId := geonameId.map UInt32.ofNat, city,
             mostSpecificDivision, leastSpecificDivision, postalCode, sourceText, vpn }
  else throw (.invalidRange ⟨first, last⟩)

/-- The value of a step from the start of a buffer, and how many bytes it used. -/
def runOn {α : Type} (read : Read α) (buffer : Bytes) : Except Error (α × Nat) :=
  match read (Reader.start buffer) with
  | .ok x r => .ok (x, r.position)
  | .error e _ => .error e

end Read

/-- The address at the front of a buffer, and how many bytes it takes. -/
def decodeAddress (buffer : Bytes) : Except Error (Address × Nat) := Read.address.runOn buffer

/-- The location at the front of a buffer. -/
def decodeLocation (buffer : Bytes) : Except Error Location :=
  (Read.location.runOn buffer).map (·.1)

end IpAtlas.Codec
