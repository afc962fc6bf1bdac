import IpAtlas.Database
import IpAtlas.Index.Writer

/-!
# Storage

Where a provider's ranges are kept while they are collected, and afterwards: in memory, or in an
index file at a path.

## What is here

* `Storage` — the choice.
* `Draft` — the ranges collected so far, by the choice made.
* `Draft.open`, `Draft.append`, `Draft.freeze`, `Draft.discard` — its life.
-/

set_option autoImplicit false

namespace IpAtlas

/-- Where ranges are kept. -/
inductive Storage where
  | memory
  /-- In an index file, whose reader has room for some decoded locations. -/
  | file (path : Path) (cacheCapacity : Nat)
  deriving DecidableEq, Repr, Inhabited

/-- A storage as it is shown for debugging. -/
def Storage.toText : Storage → String
  | memory => "InMemory"
  | file path cacheCapacity =>
    "File \x7b " ++ s!"path: {Text.quotedPath path.text}, cache_capacity: {cacheCapacity}" ++
      " \x7d"

/-- Ranges that are being collected. -/
inductive Draft where
  | memory (ranges : Memory)
  | file (writer : Index.Writer) (cacheCapacity : Nat)

namespace Draft

/-- A draft without ranges.  In a file it takes its place on disk at once. -/
def «open» (disk : Disk) : Storage → Except Error Draft × Disk
  | .memory => (.ok (memory {}), disk)
  | .file path cacheCapacity =>
    let (writer, disk) := Index.Writer.create disk path
    (writer.map (file · cacheCapacity), disk)

/-- A draft with one more range. -/
def append (e : Entry) : Draft → Draft
  | memory ranges => memory (ranges.push e)
  | file writer cacheCapacity => file (writer.append e) cacheCapacity

/-- The ranges of a draft, in the order in which they came. -/
def entries : Draft → List Entry
  | memory ranges => ranges.entries.toList
  | file writer _ => writer.entries.toList

/-- The database of a draft. -/
def freeze (disk : Disk) : Draft → Except Error Database × Disk × Journal
  | memory ranges => (.ok (.memory ranges), disk, [])
  | file writer cacheCapacity =>
    match writer.finish disk with
    | (.ok path, disk, remarks) =>
      ((Index.Reader.open disk path).map fun r => .file (r.withCache cacheCapacity), disk, remarks)
    | (.error e, disk, remarks) => (.error e, disk, remarks)

/-- Gives a draft up. -/
def discard (disk : Disk) : Draft → Disk × Journal
  | memory _ => (disk, [])
  | file writer _ => writer.abort disk

end Draft

end IpAtlas
