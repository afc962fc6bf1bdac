import IpAtlas.Bytes

/-!
# Restoring compressed data

The DEFLATE format of RFC 1951.  The data is a sequence of bits, lowest bit of each byte first, cut
into blocks that are stored as they are or coded with two prefix codes: one for literal bytes and
the lengths of repetitions, one for how far back a repetition lies.  The codes are fixed or told at
the front of the block.

A code is told by the lengths of its words.  Lengths that leave words over are refused unless there
is at most one word, and so are lengths that ask for more words than there are.

## What is here

* `Outcome` — how restoring ends: at the end of the data, for want of bits, or at a contradiction.
* `Code`, `Code.ofLengths?`, `Code.next` — prefix codes.
* `inflate` — the restored bytes.
-/

set_option autoImplicit false

namespace IpAtlas.Gzip

/-- The bits of some bytes, the lowest of each byte first. -/
def bitsOf (bs : Bytes) : List Bool :=
  bs.flatMap fun b => (List.range 8).map fun i => b.toNat.testBit i

/-- A step of reading: a value and the bits after it, too few bits, or bits that mean nothing. -/
inductive Step (α : Type) where
  | value (x : α) (bits : List Bool)
  | short
  | wrong

/-- The steps one after the other. -/
def Step.bind {α β : Type} (s : Step α) (f : α → List Bool → Step β) : Step β :=
  match s with
  | .value x bits => f x bits
  | .short => .short
  | .wrong => .wrong

/-- The next `count` bits as a number, the lowest first. -/
def number : Nat → List Bool → Step Nat
  | 0, bits => .value 0 bits
  | _ + 1, [] => .short
  | count + 1, b :: bits => (number count bits).bind fun n bits => .value (b.toNat + 2 * n) bits

/-! ## Prefix codes -/

/-- A prefix code: how many words there are of each length from one on, and the symbols in the order
of their words. -/
structure Code where
  counts : List Nat
  symbols : Array Nat

namespace Code

/-- The longest word of a code. -/
def maxLength : Nat := 15

/-- Whether so many words of each length fit into a code, and how much room they leave out of
`room` words of the current length. -/
def roomLeft? (room : Nat) : List Nat → Option Nat
  | [] => some room
  | count :: counts => if 2 * room < count then none else roomLeft? (2 * room - count) counts

/-- The code whose words have the given lengths, by symbol; length zero for no word. -/
def ofLengths? (lengths : List Nat) : Option Code :=
  let sizes := (List.range maxLength).map (· + 1)
  let counts := sizes.map fun size => lengths.count size
  let numbered := lengths.zipIdx
  let symbols := sizes.flatMap fun size =>
    (numbered.filter fun entry => entry.1 = size).map (·.2)
  match roomLeft? 1 counts with
  | some room => if room ≠ 0 ∧ 1 < symbols.length then none else some ⟨counts, symbols.toArray⟩
  | none => none

/-- The symbol of the word in front.  `word` is worth the bits read so far, `least` is the first
word of the current length and `index` the place of its symbol. -/
def nextFrom (symbols : Array Nat) (word least index : Nat) :
    List Nat → List Bool → Step Nat
  | [], _ => .wrong
  | _ :: _, [] => .short
  | count :: counts, b :: bits =>
    let word := word + b.toNat
    if word < least + count then
      match symbols[index + (word - least)]? with
      | some symbol => .value symbol bits
      | none => .wrong
    else nextFrom symbols (2 * word) (2 * (least + count)) (index + count) counts bits

/-- The symbol of the word in front. -/
def next (code : Code) (bits : List Bool) : Step Nat :=
  nextFrom code.symbols 0 0 0 code.counts bits

end Code

/-! ## Blocks -/

/-- How restoring ends. -/
inductive Outcome where
  /-- All is restored; these bits follow. -/
  | complete (output : Array UInt8) (bits : List Bool)
  /-- The bits end before the data does. -/
  | truncated (output : Array UInt8)
  /-- The bits contradict the format. -/
  | corrupt (output : Array UInt8)

/-- What lengths start from, and how many more bits they are told with, by symbol from 257 on. -/
def lengthTable : List (Nat × Nat) :=
  [(3, 0), (4, 0), (5, 0), (6, 0), (7, 0), (8, 0), (9, 0), (10, 0), (11, 1), (13, 1), (15, 1),
    (17, 1), (19, 2), (23, 2), (27, 2), (31, 2), (35, 3), (43, 3), (51, 3), (59, 3), (67, 4),
    (83, 4), (99, 4), (115, 4), (131, 5), (163, 5), (195, 5), (227, 5), (258, 0)]

/-- What distances start from, and how many more bits they are told with, by symbol. -/
def distanceTable : List (Nat × Nat) :=
  [(1, 0), (2, 0), (3, 0), (4, 0), (5, 1), (7, 1), (9, 2), (13, 2), (17, 3), (25, 3), (33, 4),
    (49, 4), (65, 5), (97, 5), (129, 6), (193, 6), (257, 7), (385, 7), (513, 8), (769, 8),
    (1025, 9), (1537, 9), (2049, 10), (3073, 10), (4097, 11), (6145, 11), (8193, 12), (12289, 12),
    (16385, 13), (24577, 13)]

/-- A number that is told by a symbol of a table and the bits after it. -/
def tabled (table : List (Nat × Nat)) (symbol : Nat) (bits : List Bool) : Step Nat :=
  match table[symbol]? with
  | none => .wrong
  | some (start, extra) => (number extra bits).bind fun n bits => .value (start + n) bits

/-- Repeats what lies `distance` back, one byte at a time. -/
def repeatBack (distance : Nat) : Nat → Array UInt8 → Array UInt8
  | 0, output => output
  | count + 1, output =>
    repeatBack distance count (output.push (output[output.size - distance]?.getD 0))

/-- The output after one symbol, or none at the end of the block. -/
inductive Emitted where
  | more (output : Array UInt8)
  | blockEnd

/-- One symbol of a coded block. -/
def symbolStep (literals distances : Code) (output : Array UInt8) (bits : List Bool) :
    Step Emitted :=
  (literals.next bits).bind fun symbol bits =>
    if symbol < 256 then .value (.more (output.push (UInt8.ofNat symbol))) bits
    else if symbol = 256 then .value .blockEnd bits
    else
      (tabled lengthTable (symbol - 257) bits).bind fun length bits =>
        (distances.next bits).bind fun symbol bits =>
          (tabled distanceTable symbol bits).bind fun distance bits =>
            if output.size < distance then .wrong
            else .value (.more (repeatBack distance length output)) bits

/-- A coded block.  Every symbol takes at least one bit, so the fuel is the number of bits. -/
def coded (literals distances : Code) (fuel : Nat) (output : Array UInt8) (bits : List Bool) :
    Outcome :=
  match fuel with
  | 0 => .truncated output
  | fuel + 1 =>
    match symbolStep literals distances output bits with
    | .value (.more output) bits => coded literals distances fuel output bits
    | .value .blockEnd bits => .complete output bits
    | .short => .truncated output
    | .wrong => .corrupt output

/-- The lengths of the words of the fixed literal code. -/
def fixedLiterals : List Nat :=
  List.replicate 144 8 ++ List.replicate 112 9 ++ List.replicate 24 7 ++ List.replicate 8 8

/-- The lengths of the words of the fixed distance code. -/
def fixedDistances : List Nat := List.replicate 32 5

/-- The order in which the lengths of the code for code lengths are told. -/
def lengthOrder : List Nat := [16, 17, 18, 0, 8, 7, 9, 6, 10, 5, 11, 4, 12, 3, 13, 2, 14, 1, 15]

/-- `count` numbers of three bits. -/
def threeBitNumbers : Nat → List Bool → Step (List Nat)
  | 0, bits => .value [] bits
  | count + 1, bits =>
    (number 3 bits).bind fun n bits =>
      (threeBitNumbers count bits).bind fun ns bits => .value (n :: ns) bits

/-- Code lengths up to `wanted` of them, the last first: a length, or a repetition of the one before
or of zero.  Each takes at least one bit. -/
def codeLengths (code : Code) (wanted fuel : Nat) (told : List Nat) (bits : List Bool) :
    Step (List Nat) :=
  if told.length = wanted then .value told bits
  else if wanted < told.length then .wrong
  else
    match fuel with
    | 0 => .short
    | fuel + 1 =>
      (code.next bits).bind fun symbol bits =>
        if symbol < 16 then codeLengths code wanted fuel (symbol :: told) bits
        else if symbol = 16 then
          match told with
          | [] => .wrong
          | last :: _ =>
            (number 2 bits).bind fun n bits =>
              codeLengths code wanted fuel (List.replicate (3 + n) last ++ told) bits
        else if symbol = 17 then
          (number 3 bits).bind fun n bits =>
            codeLengths code wanted fuel (List.replicate (3 + n) 0 ++ told) bits
        else
          (number 7 bits).bind fun n bits =>
            codeLengths code wanted fuel (List.replicate (11 + n) 0 ++ told) bits

/-- A code, where lengths that make none are a contradiction. -/
def codeStep (lengths : List Nat) (bits : List Bool) : Step Code :=
  match Code.ofLengths? lengths with
  | some code => .value code bits
  | none => .wrong

/-- The two codes at the front of a block that tells its own. -/
def toldCodes (bits : List Bool) : Step (Code × Code) :=
  (number 5 bits).bind fun literals bits =>
    (number 5 bits).bind fun distances bits =>
      (number 4 bits).bind fun count bits =>
        (threeBitNumbers (count + 4) bits).bind fun sizes bits =>
          if 29 < literals ∨ 29 < distances then .wrong
          else
            let pairs := lengthOrder.zip sizes
            let lengths := (List.range 19).map fun symbol => (pairs.lookup symbol).getD 0
            (codeStep lengths bits).bind fun code bits =>
              let wanted := literals + 257 + (distances + 1)
              (codeLengths code wanted bits.length [] bits).bind fun told bits =>
                let lengths := told.reverse
                (codeStep (lengths.take (literals + 257)) bits).bind fun literalCode bits =>
                  (codeStep (lengths.drop (literals + 257)) bits).bind fun distanceCode bits =>
                    .value (literalCode, distanceCode) bits

/-- `count` bytes as they are, or as many as there are. -/
def storedBytes : Nat → Array UInt8 → List Bool → Outcome
  | 0, output, bits => .complete output bits
  | count + 1, output, bits =>
    match number 8 bits with
    | .value n bits => storedBytes count (output.push (UInt8.ofNat n)) bits
    | _ => .truncated output

/-- A stored block: it begins at the next whole byte with its length and the complement of it. -/
def stored (output : Array UInt8) (bits : List Bool) : Outcome :=
  let bits := bits.drop (bits.length % 8)
  match (number 16 bits).bind fun n bits => (number 16 bits).bind fun m bits =>
      if n + m = 0xFFFF then Step.value n bits else .wrong with
  | .value count bits => storedBytes count output bits
  | .short => .truncated output
  | .wrong => .corrupt output

/-- A coded block with the codes that a step gives. -/
def codedWith (codes : Step (Code × Code)) (output : Array UInt8) : Outcome :=
  match codes with
  | .value (literals, distances) bits =>
    coded literals distances (bits.length + 1) output bits
  | .short => .truncated output
  | .wrong => .corrupt output

/-- The fixed codes. -/
def fixedCodes (bits : List Bool) : Step (Code × Code) :=
  (codeStep fixedLiterals bits).bind fun literals bits =>
    (codeStep fixedDistances bits).bind fun distances bits => .value (literals, distances) bits

/-- One block of a kind. -/
def block (kind : Nat) (output : Array UInt8) (bits : List Bool) : Outcome :=
  match kind with
  | 0 => stored output bits
  | 1 => codedWith (fixedCodes bits) output
  | 2 => codedWith (toldCodes bits) output
  | _ => .corrupt output

/-- Blocks up to the last.  Every block takes at least three bits. -/
def blocks (fuel : Nat) (output : Array UInt8) (bits : List Bool) : Outcome :=
  match fuel with
  | 0 => .truncated output
  | fuel + 1 =>
    match (number 1 bits).bind fun last bits => (number 2 bits).bind fun kind bits =>
        Step.value (last, kind) bits with
    | .value (last, kind) bits =>
      match block kind output bits with
      | .complete output bits =>
        if last = 1 then .complete output bits else blocks fuel output bits
      | outcome => outcome
    | .short => .truncated output
    | .wrong => .corrupt output

/-- Restores the data at the front of some bytes. -/
def inflate (bs : Bytes) : Outcome :=
  let bits := bitsOf bs
  blocks (bits.length + 1) #[] bits

end IpAtlas.Gzip
