import IpAtlas.Index.Reader

/-!
# Databases

A database answers an address with the location of the range that covers it.  The ranges ascend, so
the answer is found among those that start at or before the address: the last of them is the only
one that can cover it.

Looking something up may change a database, because one on disk remembers what it decoded.

## What is here

* `Memory`, `Memory.get` — ranges kept in memory.
* `Database`, `Database.get`, `Database.rangeCount?` — anything that answers addresses.
-/

set_option autoImplicit false

namespace IpAtlas

/-- Ascending ranges in memory. -/
structure Memory where
  entries : Array Entry := #[]
  deriving Repr

namespace Memory

/-- The ranges with one more behind them. -/
def push (m : Memory) (e : Entry) : Memory := ⟨m.entries.push e⟩

/-- How many ranges there are. -/
def size (m : Memory) : Nat := m.entries.size

/-- Whether a range starts at or before an address. -/
def startsBy (m : Memory) (a : Address) (index : Nat) : Bool :=
  match m.entries[index]? with
  | some e => e.span.first ≤ a
  | none => false

/-- The last range that starts at or before an address. -/
def floor? (m : Memory) (a : Address) : Option Entry :=
  match firstFailure (m.startsBy a) 0 m.size with
  | 0 => none
  | count + 1 => m.entries[count]?

/-- The location of the range that covers an address. -/
def get (m : Memory) (a : Address) : Option Location :=
  match m.floor? a with
  | some e => if a ≤ e.span.last then some e.location else none
  | none => none

end Memory

/-- Anything that answers addresses. -/
inductive Database where
  /-- Ranges in memory. -/
  | memory (ranges : Memory)
  /-- Ranges in an index file. -/
  | file (reader : Index.Reader)
  /-- Answers that come from elsewhere. -/
  | answering (answer : Address → Option Location)

namespace Database

/-- The answer to an address, the database afterwards, and what there is to remark. -/
def get (database : Database) (a : Address) : Option Location × Database × Journal :=
  match database with
  | memory ranges => (ranges.get a, database, [])
  | file reader =>
    let (location, reader, remarks) := reader.get a
    (location, file reader, remarks)
  | answering answer => (answer a, database, [])

/-- How many ranges there are, where that is known. -/
def rangeCount? : Database → Option Nat
  | memory ranges => some ranges.size
  | file reader => some reader.size
  | answering _ => none

/-- The answer to an address, without the rest. -/
def answer (database : Database) (a : Address) : Option Location := (database.get a).1

end Database

end IpAtlas
