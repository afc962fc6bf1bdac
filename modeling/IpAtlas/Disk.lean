import IpAtlas.Path
import IpAtlas.Stream

/-!
# The disk

The files and directories below a working directory, as a value.  Whoever changes the disk gives
back the disk that results; whoever read a file keeps what it read, whatever happens to the file
afterwards.

A path is followed name by name.  Every name but the last must be a directory, two dots lead back
up, and what lies above the working directory is out of sight: it can be walked through but holds
nothing.

Files that are being written have names of their own, with the number of the process in them and one
that is counted up.  `Disk.freshPath` hands them out, each once.

## What is here

* `Disk`, `Disk.entry?` — what is where.
* `Disk.follow` — where a path leads.
* `Disk.read`, `Disk.map` — a file as a stream, and as memory.
* `Disk.create`, `Disk.recreate`, `Disk.rename`, `Disk.remove` — changes that can fail.
* `Disk.put`, `Disk.putDirectory` — changes that make their own way.
* `Disk.listing` — the names of all files.
-/

set_option autoImplicit false

namespace IpAtlas

/-- What a name stands for: a file with what can be read of it, and the failure behind that if the
file cannot be read to its end, or a directory. -/
inductive Disk.Entry where
  | file (contents : Bytes) (fault : Option IoError := none)
  | directory
  deriving DecidableEq, Repr

/-- Files and directories by the names that lead to them from the working directory, and how many
names were handed out for files that are being written. -/
structure Disk where
  entries : List (List String × Disk.Entry) := []
  handedOut : Nat := 0
  /-- The number of the process. -/
  process : Nat := 1
  /-- What the process is given to read. -/
  input : Stream := ⟨[], none⟩
  deriving Repr

namespace Disk

/-- What some names lead to.  No names lead to the working directory. -/
def entry? (disk : Disk) (names : List String) : Option Entry :=
  if names = [] then some .directory else disk.entries.lookup names

/-- The disk with something else, or nothing, at the end of some names. -/
def set (disk : Disk) (names : List String) (entry : Option Entry) : Disk :=
  let others := disk.entries.filter fun e => e.1 ≠ names
  { disk with entries := (entry.toList.map fun e => (names, e)) ++ others }

/-- The disk with other contents in a file. -/
def update (disk : Disk) (names : List String) (contents : Bytes) : Disk :=
  { disk with
    entries := disk.entries.map fun e => if e.1 = names then (names, .file contents) else e }

/-! ## Following a path -/

/-- Where a path has led so far. -/
inductive Place where
  /-- Above the working directory or beside it. -/
  | outside
  /-- At the end of some names below the working directory. -/
  | inside (names : List String)
  deriving DecidableEq, Repr

/-- What is at a place. -/
def at? (disk : Disk) : Place → Option Entry
  | .outside => some .directory
  | .inside names => disk.entry? names

/-- The longest name a directory holds, in bytes. -/
def maxNameBytes : Nat := 255

/-- One step from a place that must be a directory. -/
def step (disk : Disk) (place : Place) (segment : String) : Except IoError Place :=
  match disk.at? place with
  | none => .error .notFound
  | some (.file ..) => .error .notADirectory
  | some .directory =>
    if segment = "" ∨ segment = "." then .ok place
    else
      match place with
      | .outside => if segment = ".." then .ok .outside else .error .notFound
      | .inside names =>
        if segment = ".." then .ok (if names = [] then .outside else .inside names.dropLast)
        else if maxNameBytes < segment.utf8ByteSize then .error .nameTooLong
        else .ok (.inside (names ++ [segment]))

/-- Where a path leads; the last name need not exist. -/
def follow (disk : Disk) (path : Path) : Except IoError Place :=
  if path.text = "" then .error .notFound
  else if path.text.toList.contains '\x00' then .error .zeroInPath
  else
    path.segments.foldlM (fun place segment => disk.step place segment)
      (if path.isAbsolute then .outside else .inside [])

/-- What a path leads to. -/
def find (disk : Disk) (path : Path) : Except IoError Entry := do
  match disk.at? (← disk.follow path) with
  | some entry => return entry
  | none => throw .notFound

/-! ## Reading -/

/-- A file opened for reading.  A directory can be opened and then not be read. -/
def read (disk : Disk) (path : Path) : Except IoError Stream := do
  match ← disk.find path with
  | .file contents fault => return ⟨contents, fault⟩
  | .directory => return .failing .isADirectory

/-- The contents of a file mapped into memory, which directories refuse. -/
def map (disk : Disk) (path : Path) : Except IoError Bytes := do
  match ← disk.find path with
  | .file contents _ => return contents
  | .directory => throw .notMappable

/-! ## Changes that can fail -/

/-- A new file, at a path where nothing is yet. -/
def create (disk : Disk) (path : Path) (contents : Bytes) : Except IoError Disk := do
  match ← disk.follow path with
  | .outside => throw .alreadyExists
  | .inside names =>
    match disk.entry? names with
    | some _ => throw .alreadyExists
    | none => return disk.set names (some (.file contents))

/-- An empty file at a path.  A file that is there loses its contents. -/
def recreate (disk : Disk) (path : Path) : Except IoError Disk := do
  match ← disk.follow path with
  | .outside => throw .isADirectory
  | .inside names =>
    match disk.entry? names with
    | some .directory => throw .isADirectory
    | some (.file ..) => return disk.update names []
    | none => return disk.set names (some (.file []))

/-- Whether a path ends in a separator, so that it can only mean a directory. -/
def meansDirectory (path : Path) : Bool := path.segments.getLast? = some ""

/-- Whether a path ends in one or two dots, which are not names. -/
def endsInDots (path : Path) : Bool :=
  match (path.segments.filter (· ≠ "")).getLast? with
  | some last => last = "." || last = ".."
  | none => true

/-- Moves a file to a path, over the file that may be there. -/
def rename (disk : Disk) (source target : Path) : Except IoError Disk := do
  match ← disk.follow source with
  | .outside => throw .resourceBusy
  | .inside names =>
    match disk.entry? names with
    | some (.file contents fault) =>
      let place ← disk.follow target
      if endsInDots target then throw .resourceBusy
      else if meansDirectory target then throw .notADirectory
      else
        match place with
        | .outside => throw .resourceBusy
        | .inside goal =>
          if disk.entry? goal = some .directory then throw .isADirectory
          else return (disk.set names none).set goal (some (.file contents fault))
    | some .directory => throw .isADirectory
    | none => throw .notFound

/-- Removes a file. -/
def remove (disk : Disk) (path : Path) : Except IoError Disk := do
  match ← disk.follow path with
  | .outside => throw .isADirectory
  | .inside names =>
    match disk.entry? names with
    | some (.file ..) => return disk.set names none
    | some .directory => throw .isADirectory
    | none => throw .notFound

/-- The disk with other contents in a file, if the path leads to one. -/
def refill (disk : Disk) (path : Path) (contents : Bytes) : Disk :=
  match disk.follow path with
  | .ok (.inside names) =>
    match disk.entry? names with
    | some (.file ..) => disk.update names contents
    | _ => disk
  | _ => disk

/-- A path beside a given one that was not handed out before, for a file that is being written. -/
def freshPath (disk : Disk) (path : Path) : Path × Disk :=
  (path.appended s!".{disk.process}.{disk.handedOut}.building",
    { disk with handedOut := disk.handedOut + 1 })

/-! ## Changes that make their own way -/

/-- Puts directories where some names lead through. -/
def putParents (disk : Disk) (names : List String) : Disk :=
  ((List.range names.length).map names.take).foldl (fun disk front =>
    if (disk.entry? front).isSome then disk else disk.set front (some .directory)) disk

/-- The names of a path, without the segments that say nothing. -/
def namesOf (path : Path) : List String := path.segments.filter fun s => s ≠ "" ∧ s ≠ "."

/-- Puts a file at a path, with the directories that lead to it. -/
def put (disk : Disk) (path : Path) (contents : Bytes) : Disk :=
  (disk.putParents (namesOf path)).set (namesOf path) (some (.file contents))

/-- Puts a directory at a path, with those that lead to it. -/
def putDirectory (disk : Disk) (path : Path) : Disk :=
  let disk := disk.putParents (namesOf path)
  if (disk.entry? (namesOf path)).isSome then disk
  else disk.set (namesOf path) (some .directory)

/-! ## Listing -/

/-- The names of all files, in ascending order. -/
def listing (disk : Disk) : List String :=
  let names := disk.entries.filterMap fun
    | (names, .file ..) => some (String.intercalate "/" names)
    | (_, .directory) => none
  names.mergeSort (· ≤ ·)

/-- Whether a name is that of a file that is being written. -/
def isBuilding (name : String) : Bool := (name.splitOn ".building").length ≠ 1

end Disk

end IpAtlas
