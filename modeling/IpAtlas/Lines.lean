import IpAtlas.Record
import IpAtlas.Stream
import IpAtlas.Text.Utf8

/-!
# Lines of a source

A source is cut at its line ends and every piece gets a number, from one on.  A piece loses one
carriage return at its end, the first piece a byte order mark in front, and a piece of nothing but
ASCII blanks is no line, though it keeps its number.  Bytes that are not text are replaced.

There are two ways to read a source.  The sequential one hands out line after line.  The batched one
takes the source as it arrives, read by read, and groups whole lines into batches that can be parsed
apart from each other: a batch runs to the last line end there is, and what follows waits for the
next read.  Both give the same lines.

If a source fails, the piece it was in the middle of is lost: only pieces with a line end count.

## What is here

* `Line.ofPiece?` — a piece as a line.
* `finishedPieces`, `unfinishedPiece`, `Stream.lines` — sequential reading.
* `Batch`, `batches`, `Stream.batches` — batched reading.
* `Stream.reads` — a source as it arrives, so many bytes at a time.
-/

set_option autoImplicit false

namespace IpAtlas

/-- The byte that ends a line. -/
def newline : UInt8 := 0x0A

/-- Whether a byte is a blank of ASCII. -/
def isAsciiBlank (b : UInt8) : Bool :=
  b == 0x20 || b == 0x09 || b == 0x0A || b == 0x0C || b == 0x0D

/-- Bytes without one carriage return at the end. -/
def dropReturn (bs : Bytes) : Bytes := if bs.getLast? = some 0x0D then bs.dropLast else bs

/-- Bytes without a byte order mark in front. -/
def dropByteOrderMark : Bytes → Bytes
  | 0xEF :: 0xBB :: 0xBF :: bs => bs
  | bs => bs

/-- A numbered piece of a source as a line, unless it is blank. -/
def Line.ofPiece? (number : Nat) (piece : Bytes) : Option Line :=
  let bs := dropReturn piece
  let bs := if number = 1 then dropByteOrderMark bs else bs
  if bs.all isAsciiBlank then none else some ⟨number, Utf8.decodeLossy bs⟩

/-- The lines of some pieces, the first of which has the number `first`. -/
def linesFrom (first : Nat) (pieces : List Bytes) : List Line :=
  (pieces.zipIdx first).filterMap fun (piece, number) => Line.ofPiece? number piece

/-! ## Sequential reading -/

/-- Whether a byte stands inside a line. -/
def insideLine (b : UInt8) : Bool := b != newline

/-- The pieces that a line end finishes, without it. -/
def finishedPieces (bs : Bytes) : List Bytes :=
  match h : bs.dropWhile insideLine with
  | [] => []
  | _ :: rest =>
    have : rest.length < bs.length := by
      have := List.IsSuffix.length_le (List.dropWhile_suffix (l := bs) insideLine)
      rw [h, List.length_cons] at this; omega
    bs.takeWhile insideLine :: finishedPieces rest
  termination_by bs.length

/-- What follows the last line end. -/
def unfinishedPiece (bs : Bytes) : Bytes := (bs.reverse.takeWhile insideLine).reverse

/-- The pieces of a source: the finished ones, and the last one if the source ends well. -/
def Stream.pieces (s : Stream) : List Bytes :=
  let last := unfinishedPiece s.bytes
  finishedPieces s.bytes ++ if s.fault.isNone ∧ last ≠ [] then [last] else []

/-- The lines of a source, read one after the other. -/
def Stream.lines (s : Stream) : List Line := linesFrom 1 s.pieces

/-! ## Batched reading -/

/-- Whole lines that are parsed together. -/
structure Batch where
  /-- The number of the first piece. -/
  first : Nat
  data : Bytes
  /-- Where in the data the line ends are. -/
  newlines : List Nat
  deriving DecidableEq, Repr

namespace Batch

/-- A batch of data whose first piece has a given number. -/
def ofData (first : Nat) (data : Bytes) : Batch :=
  ⟨first, data, (data.zipIdx.filter fun e => e.1 == newline).map (·.2)⟩

/-- The pieces of data between the places of line ends, when `start` bytes are cut off already. -/
def piecesAt (start : Nat) (data : Bytes) : List Nat → List Bytes
  | [] => if data.isEmpty then [] else [data]
  | place :: places =>
    data.take (place - start) ::
      piecesAt (place + 1) (data.drop (place + 1 - start)) places

/-- The lines of a batch. -/
def lines (b : Batch) : List Line := linesFrom b.first (piecesAt 0 b.data b.newlines)

end Batch

/-- The batches of a source that arrives in the given reads.  `first` is the number of the next
piece and `waiting` what is read of it; at the end of a source that ends well it becomes a batch. -/
def batches (first : Nat) (waiting : Bytes) (endsWell : Bool) : List Bytes → List Batch
  | [] => if endsWell ∧ waiting ≠ [] then [.ofData first waiting] else []
  | read :: reads =>
    let arrived := waiting ++ read
    let last := unfinishedPiece arrived
    let whole := arrived.take (arrived.length - last.length)
    if whole = [] then batches first arrived endsWell reads
    else
      let batch := Batch.ofData first whole
      batch :: batches (first + batch.newlines.length) last endsWell reads

/-- Bytes as they arrive when every read takes `size` of them, except that the last takes what is
left; a size of zero counts as one. -/
def readsOf (size : Nat) (bs : Bytes) : List Bytes :=
  match bs with
  | [] => []
  | b :: rest => (b :: rest.take (size - 1)) :: readsOf size (rest.drop (size - 1))
  termination_by bs.length
  decreasing_by simp only [List.length_drop, List.length_cons]; omega

/-- The batches of a source that is read so many bytes at a time. -/
def Stream.batches (size : Nat) (s : Stream) : List Batch :=
  IpAtlas.batches 1 [] s.fault.isNone (readsOf size s.bytes)

end IpAtlas
