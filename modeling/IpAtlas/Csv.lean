import IpAtlas.Error

/-!
# Fields of a delimited line

A line of a table is cut into fields at a delimiter.  A field that begins with a double quote runs
to the quote that closes it, delimiters and line ends included, with a quote inside written twice;
what follows the closing quote up to the delimiter still belongs to the field.  A quote anywhere
else is a character like any other.

Only the first record of a text counts: a byte order mark and line ends in front of it are passed
over, and a line end outside quotes ends it.  The delimiter is any byte, so it may take the place of
a line end, or of the quote where no field begins; and it may lie inside a character, which is why
the cut is made on bytes and each field is checked to be text afterwards.

## What is here

* `State`, `split` — the cut, by where in a field it stands.
* `record?` — the first record of some bytes.
* `fields` — the fields of a line as text.
-/

set_option autoImplicit false

namespace IpAtlas.Csv

/-- The double quote. -/
def quote : UInt8 := 0x22

/-- Whether a byte ends a line. -/
def isLineEnd (b : UInt8) : Bool := b == 0x0A || b == 0x0D

/-- Where in a field the cut stands. -/
inductive State where
  /-- Before the first byte. -/
  | opening
  /-- Outside quotes. -/
  | plain
  /-- Inside quotes. -/
  | quoted
  /-- Behind a quote that closes the field or is one of two. -/
  | closing
  deriving DecidableEq, Repr

/-- Puts a byte in front of the first field. -/
def pushByte (b : UInt8) : List Bytes → List Bytes
  | [] => [[b]]
  | f :: fs => (b :: f) :: fs

/-- The fields from the one in which the cut stands up to the end of the record. -/
def split (delimiter : UInt8) : State → Bytes → List Bytes
  | _, [] => [[]]
  | .quoted, b :: bs =>
    if b = quote then split delimiter .closing bs else pushByte b (split delimiter .quoted bs)
  | .opening, b :: bs =>
    if b = quote then split delimiter .quoted bs
    else if b = delimiter then [] :: split delimiter .opening bs
    else if isLineEnd b then [[]]
    else pushByte b (split delimiter .plain bs)
  | .plain, b :: bs =>
    if b = delimiter then [] :: split delimiter .opening bs
    else if isLineEnd b then [[]]
    else pushByte b (split delimiter .plain bs)
  | .closing, b :: bs =>
    if b = quote then pushByte b (split delimiter .quoted bs)
    else if b = delimiter then [] :: split delimiter .opening bs
    else if isLineEnd b then [[]]
    else pushByte b (split delimiter .plain bs)

/-- Bytes without the byte order mark in front. -/
def dropMark : Bytes → Bytes
  | 0xEF :: 0xBB :: 0xBF :: bs => bs
  | bs => bs

/-- The fields of the first record, if there is a record. -/
def record? (delimiter : UInt8) (bs : Bytes) : Option (List Bytes) :=
  match (dropMark bs).dropWhile isLineEnd with
  | [] => none
  | bs => some (split delimiter .opening bs)

/-- Fields as text, the first of them being number `field`. -/
def textFields (field : Nat) : List Bytes → Except ParseError.Reason (List String)
  | [] => .ok []
  | f :: fs => do
    match Utf8.decode f with
    | .ok s => return s :: (← textFields (field + 1) fs)
    | .error fault => throw (.tornField field fault.offset)

/-- The fields of a line. -/
def fields (delimiter : UInt8) (line : Line) : Except ParseError (List String) :=
  match record? delimiter (Utf8.encode line.text) with
  | none => .error ⟨line, .emptyLine⟩
  | some fs => (textFields 0 fs).mapError (⟨line, ·⟩)

end IpAtlas.Csv
