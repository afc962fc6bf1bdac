/-!
# File paths

A path is kept as it was spelled, because that is how it is shown, and read as components when two
paths are compared: repeated separators and a dot between separators say nothing, while a dot in
front and two dots anywhere are components of their own.

## What is here

* `Path`, `Path.segments` — the spelling, and what stands between its separators.
* `Path.components`, `Path.same` — what a path says, and when two say the same.
* `Path.parent?`, `Path.join`, `Path.fileName?`, `Path.extension?` — taking paths apart.
* `Path.standardInput` — the path that names no file.
-/

set_option autoImplicit false

namespace IpAtlas

/-- A file path as it was spelled. -/
structure Path where
  text : String
  deriving DecidableEq, Repr

namespace Path

instance : ToString Path := ⟨text⟩

/-- The path that stands for standard input. -/
def standardInput : Path := ⟨"-"⟩

/-- Cuts characters at every slash. -/
def splitSlash : List Char → List (List Char)
  | [] => [[]]
  | c :: cs =>
    if c = '/' then [] :: splitSlash cs
    else
      match splitSlash cs with
      | [] => [[c]]
      | seg :: segs => (c :: seg) :: segs

/-- What stands between the separators, empty pieces included. -/
def segments (p : Path) : List String := (splitSlash p.text.toList).map String.ofList

/-- Whether the path starts at the root. -/
def isAbsolute (p : Path) : Bool := p.text.toList.head? = some '/'

/-- One step of a path. -/
inductive Component where
  /-- The root directory. -/
  | root
  /-- A dot at the very front. -/
  | current
  /-- Two dots. -/
  | parent
  /-- A name. -/
  | normal (name : String)
  deriving DecidableEq, Repr

/-- The component of a segment that stands anywhere but at the front. -/
def innerComponent? (segment : String) : Option Component :=
  if segment = "" ∨ segment = "." then none
  else if segment = ".." then some .parent
  else some (.normal segment)

/-- What a path says, step by step. -/
def components (p : Path) : List Component :=
  match p.segments with
  | [] => []
  | front :: others =>
    let start : List Component :=
      if p.isAbsolute then [.root]
      else if front = "." then [.current]
      else (innerComponent? front).toList
    start ++ others.filterMap innerComponent?

/-- Whether two paths are spelled from the same components. -/
def same (p q : Path) : Bool := p.components = q.components

/-- Segments without those at the end that say nothing. -/
def trimSegments (segs : List String) : List String :=
  (segs.reverse.dropWhile fun s => s = "" || s = ".").reverse

/-- The path without its last component; none if there is no component to drop. -/
def parent? (p : Path) : Option Path :=
  if p.isAbsolute then
    match trimSegments (p.segments.drop 1) with
    | [] => none
    | segs => some ⟨"/" ++ String.intercalate "/" (trimSegments segs.dropLast)⟩
  else
    match p.segments with
    | [] => none
    | front :: others =>
      match trimSegments others with
      | [] => if front = "" then none else some ⟨""⟩
      | segs => some ⟨String.intercalate "/" (front :: trimSegments segs.dropLast)⟩

/-- A path followed from another: an absolute one is followed from anywhere. -/
def join (base p : Path) : Path :=
  if p.isAbsolute ∨ base.text = "" then p
  else if base.text.endsWith "/" then ⟨base.text ++ p.text⟩
  else ⟨base.text ++ "/" ++ p.text⟩

/-- The name at the end of a path, if it ends in one. -/
def fileName? (p : Path) : Option String :=
  match p.components.getLast? with
  | some (.normal name) => some name
  | _ => none

/-- What follows the last dot of the name, unless that dot begins it. -/
def extension? (p : Path) : Option String := do
  let name ← p.fileName?
  let cs := name.toList.reverse
  let tail := cs.takeWhile (· ≠ '.')
  let front := (cs.drop tail.length).drop 1
  if cs.length = tail.length ∨ front.isEmpty then none else some (String.ofList tail.reverse)

/-- A path with something written right behind it. -/
def appended (p : Path) (suffix : String) : Path := ⟨p.text ++ suffix⟩

end Path

end IpAtlas
