import IpAtlas.Disk
import IpAtlas.Index.Image
import IpAtlas.Journal

/-!
# Writing index files

An index file is written under a name of its own, with a second file beside it for the table, and
takes the place of the file at its path only when it is complete.  Until then, and for good if the
writing is given up or fails, what was at the path stays there.  Neither of the two files outlives
the writer.

## What is here

* `Writer`, `Writer.create`, `Writer.append`.
* `Writer.finish` — the file takes its place.
* `Writer.abort` — it does not.
-/

set_option autoImplicit false

namespace IpAtlas.Index

/-- An index file that is being written. -/
structure Writer where
  path : Path
  /-- The file that will take its place at the path. -/
  building : Path
  /-- The file for the table. -/
  sidecar : Path
  entries : Array Entry := #[]

namespace Writer

/-- Begins the file that will replace the one at a path. -/
def create (disk : Disk) (path : Path) : Except Error Writer × Disk :=
  let (building, fresh) := disk.freshPath path
  let sidecar := building.appended ".offsets.tmp"
  let created := do
    let disk ← fresh.create building []
    disk.recreate sidecar
  match created with
  | .ok disk => (.ok { path, building, sidecar }, disk)
  | .error e => (.error (.io e), fresh)

/-- The writer with one more record. -/
def append (w : Writer) (e : Entry) : Writer := { w with entries := w.entries.push e }

/-- How many records there are. -/
def size (w : Writer) : Nat := w.entries.size

/-- Removes a file that is not to stay, if it is there. -/
def removePartial (disk : Disk) (path : Path) : Disk × Journal :=
  match disk.remove path with
  | .ok disk => (disk, [])
  | .error e =>
    if e.kind = .notFound then (disk, [])
    else (disk, [⟨.warn, s!"failed to remove partial index {path}: {e.message}"⟩])

/-- Gives the file up. -/
def abort (w : Writer) (disk : Disk) : Disk × Journal :=
  let (disk, remarks) := removePartial disk w.building
  let (disk, more) := removePartial disk w.sidecar
  (disk, remarks ++ more)

/-- Completes the file and moves it to its path. -/
def complete (w : Writer) (disk : Disk) : Except IoError Disk := do
  let disk ← disk.remove w.sidecar
  (disk.refill w.building (image w.entries.toList)).rename w.building w.path

/-- The file takes its place, or is given up if it cannot. -/
def finish (w : Writer) (disk : Disk) : Except Error Path × Disk × Journal :=
  match w.complete disk with
  | .ok disk => (.ok w.path, disk, [⟨.debug, s!"wrote {w.size} ranges to {w.path}"⟩])
  | .error e =>
    let (disk, remarks) := w.abort disk
    (.error (.io e), disk, remarks)

end Writer

end IpAtlas.Index
