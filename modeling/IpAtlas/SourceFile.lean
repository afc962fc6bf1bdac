import IpAtlas.Disk
import IpAtlas.Gzip

/-!
# Source files

Vendors ship their tables plain or compressed; the extension of the file tells which, and a single
dash stands for what the process is given to read.  A file that is there can always be opened.  What
is wrong with it shows when it is read.

Sources are read ahead.  Only a reader who asks for more than that at a time gets at the file itself.

## What is here

* `isCompressed` — what the extension tells.
* `readAheadBytes` — how much is read ahead.
* `openSource` — a source file as a stream.
-/

set_option autoImplicit false

namespace IpAtlas

/-- Whether a path names a compressed file, by an extension `gz` in any case. -/
def isCompressed (path : Path) : Bool :=
  match path.extension? with
  | some extension => extension.map Char.toLower = "gz"
  | none => false

/-- A stream that holds compressed bytes, restored for reads that ask for `asked` bytes each.  A
failure of the file itself takes the place of its end. -/
def Stream.restored (asked : Nat) (s : Stream) : Stream :=
  let restored := Gzip.restore asked s.bytes
  match restored.fault with
  | some e => if e = .endOfData then ⟨restored.bytes, s.fault.or e⟩ else restored
  | none => ⟨restored.bytes, s.fault⟩

/-- How many bytes of a source are read ahead. -/
def readAheadBytes : Nat := 128 * 1024

/-- A source as a stream, to a reader who asks for `asked` bytes at a time. -/
def openSource (disk : Disk) (path : Path) (asked : Nat := 0) : Except IoError Stream :=
  if path = .standardInput then .ok disk.input
  else
    (disk.read path).map fun s =>
      if isCompressed path then s.restored (max asked readAheadBytes) else s

end IpAtlas
