import IpAtlas.Listener
import IpAtlas.Storage

/-!
# Building a database

A builder takes the records of one provider in ascending order and freezes them into a database.
Each record must start after the end of the last one stored; one that does not is left to the
listener, and so is a line that is no record.  A build ends by being finished or by being
interrupted, and then refuses everything with an error that tells which of the two it was.

A builder that is dropped before that gives up what it has stored, so an index file that was not
finished leaves nothing behind.

## What is here

* `Builder`, `Builder.start` — a build, by its phase.
* `Builder.insert`, `Builder.reportParseError` — what a source feeds it.
* `Builder.interrupt`, `Builder.finish`, `Builder.drop` — how it ends.
-/

set_option autoImplicit false

namespace IpAtlas

/-- How many records and lines met which fate. -/
structure Counts where
  inserted : Nat := 0
  /-- Records out of order that the listener passed over. -/
  skipped : Nat := 0
  /-- Lines that are no records. -/
  unparseable : Nat := 0
  deriving DecidableEq, Repr

/-- How far a build has come. -/
inductive Builder.Phase where
  | collecting (draft : Draft)
  | finished
  | interrupted

/-- A build of one provider's database, with a listener and the state that it is in. -/
structure Builder (σ : Type) where
  provider : Provider
  storage : Storage
  listener : Listener σ
  state : σ
  phase : Builder.Phase
  /-- The end of the last record stored. -/
  last : Option Address := none
  counts : Counts := {}

/-- What a builder answers: the result, the builder as it is then, the remarks made, and whether the
listener wants the build to be interrupted. -/
structure Builder.Reply (σ : Type) where
  result : Except Error Unit
  builder : Builder σ
  remarks : Journal := []
  stop : Bool := false

namespace Builder

variable {σ : Type}

/-- A build that has not begun. -/
def start (disk : Disk) (provider : Provider) (storage : Storage) (listener : Listener σ)
    (state : σ) : Except Error (Builder σ) × Disk :=
  let (draft, disk) := Draft.open disk storage
  (draft.map fun draft => { provider, storage, listener, state, phase := .collecting draft }, disk)

/-- The error of a build that is over. -/
def closedError (b : Builder σ) : Error :=
  match b.phase with
  | .interrupted => .interrupted b.provider
  | _ => .finished b.provider

/-- What is stored of a record: its range, and its location bound to that range. -/
def entryOf (record : Record) : Entry :=
  ⟨record.range.toSpan, record.location.rebind record.range.toSpan⟩

/-- The end of the last record, if a record does not start after it. -/
def obstacle? (b : Builder σ) (record : Record) : Option Address :=
  b.last.filter fun last => record.range.first ≤ last

/-- Leaves a record that is out of order to the listener. -/
def refuse (b : Builder σ) (last : Address) (record : Record) : Reply σ :=
  let cause := .outOfOrder b.provider record.line.number last record.range.first
  let (verdict, reaction) := b.listener.outOfOrder b.state b.provider record.line cause
  let counts := match verdict with
    | .ok () => { b.counts with skipped := b.counts.skipped + 1 }
    | .error _ => b.counts
  ⟨verdict, { b with state := reaction.state, counts }, reaction.remarks, reaction.stop⟩

/-- Stores a record. -/
def accept (b : Builder σ) (draft : Draft) (record : Record) : Reply σ :=
  let reaction := b.listener.added b.state b.provider record
  { result := .ok ()
    builder := { b with
      state := reaction.state
      phase := .collecting (draft.append (entryOf record))
      last := some record.range.last
      counts := { b.counts with inserted := b.counts.inserted + 1 } }
    remarks := reaction.remarks
    stop := reaction.stop }

/-- Takes the next record. -/
def insert (b : Builder σ) (record : Record) : Reply σ :=
  match b.phase with
  | .collecting draft =>
    match b.obstacle? record with
    | some last => b.refuse last record
    | none => b.accept draft record
  | _ => { result := .error b.closedError, builder := b }

/-- Takes note of a line that is no record. -/
def reportParseError (b : Builder σ) (e : ParseError) : Reply σ :=
  match b.phase with
  | .collecting _ =>
    let (verdict, reaction) := b.listener.parseFailed b.state b.provider e
    let counts := { b.counts with unparseable := b.counts.unparseable + 1 }
    ⟨verdict, { b with state := reaction.state, counts }, reaction.remarks, reaction.stop⟩
  | _ => { result := .error b.closedError, builder := b }

/-- Takes the next record, or note of the line that is none. -/
def take (b : Builder σ) : Except ParseError Record → Reply σ
  | .ok record => b.insert record
  | .error e => b.reportParseError e

/-- Interrupts the build, which gives up what it has stored.  A build that is over stays as it is.
The result is the error to be told in any case. -/
def interrupt (b : Builder σ) (disk : Disk) : Reply σ × Disk :=
  let cause := .interrupted b.provider
  match b.phase with
  | .collecting draft =>
    let (disk, remarks) := draft.discard disk
    let reaction := b.listener.interrupted b.state b.provider cause
    (⟨.error cause, { b with state := reaction.state, phase := .interrupted },
      remarks ++ reaction.remarks, reaction.stop⟩, disk)
  | _ => ({ result := .error cause, builder := b }, disk)

/-- The remark that a database is built. -/
def summary (b : Builder σ) : Remark :=
  ⟨.info, s!"{b.provider}: built {b.counts.inserted} ranges ({b.storage.toText}), skipped " ++
    s!"{b.counts.skipped} out of order, {b.counts.unparseable} unparseable"⟩

/-- The database of all that is stored.  The build is over even if there turns out to be none. -/
def finish (b : Builder σ) (disk : Disk) :
    Except Error Database × Builder σ × Disk × Journal :=
  match b.phase with
  | .collecting draft =>
    match draft.freeze disk with
    | (.ok database, disk, remarks) =>
      (.ok database, { b with phase := .finished }, disk, remarks ++ [b.summary])
    | (.error e, disk, remarks) => (.error e, { b with phase := .finished }, disk, remarks)
  | _ => (.error b.closedError, b, disk, [])

/-- Drops the builder: what was not finished is given up. -/
def drop (b : Builder σ) (disk : Disk) : Disk × Journal :=
  match b.phase with
  | .collecting draft => draft.discard disk
  | _ => (disk, [])

/-- What the build has stored so far. -/
def stored (b : Builder σ) : List Entry :=
  match b.phase with
  | .collecting draft => draft.entries
  | _ => []

end Builder

end IpAtlas
