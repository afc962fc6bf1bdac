import IpAtlas.Builder
import IpAtlas.Layout
import IpAtlas.Overlay.Sweep
import IpAtlas.Settings
import IpAtlas.SourceFile
import IpAtlas.Lines

/-!
# Ingesting a source

The lines of a source are read as records, a sweep may lay marks over them, and a builder stores
what comes out.  A run is the state of all that.  It takes the results of the lines one by one, and
once it has failed it takes no more: the failure is what the run comes to.  Before each result, and
once more at the end, it heeds an interruption that was asked for.

There are two ways to drive a run.  Line by line, a result is made when its turn comes.  In batches,
workers read whole batches of lines at the same time, so their results arrive in any order; they are
numbered, and one that arrives early waits until those before it are through.

A source that fails makes the run fail, after everything that was read before.  An interrupted read
is made again where lines are read one by one; where whole batches are read it counts as a failure.

## What is here

* `Run`, `Run.step`, `Run.feed`, `Run.close` — a run and its results.
* `Run.ingestLines` — line by line.
* `Consumer`, `Consumer.arrive`, `Run.consume`, `Run.ingest` — in batches.
-/

set_option autoImplicit false

namespace IpAtlas

/-- What reading a line gives. -/
abbrev LineResult := Except ParseError Record

/-- A source being ingested. -/
structure Run (σ α : Type) where
  builder : Builder σ
  /-- The sweep that lays marks over the records, if there is one. -/
  overlay : Option (Sweep α) := none
  disk : Disk
  /-- Whether an interruption was asked for. -/
  interrupted : Bool := false
  remarks : Journal := []
  /-- Why the run came to an end early. -/
  failure : Option Error := none

/-- The error of a result, if it is one. -/
def errorOf? {α : Type} : Except Error α → Option Error
  | .ok _ => none
  | .error e => some e

namespace Run

variable {σ α : Type}

/-! ## Steps -/

/-- A run that goes on as its builder answered. -/
def absorb (run : Run σ α) (reply : Builder.Reply σ) : Run σ α :=
  { run with
    builder := reply.builder
    remarks := run.remarks ++ reply.remarks
    interrupted := run.interrupted || reply.stop
    failure := errorOf? reply.result }

/-- Stores a piece of a record, after the remarks made before it was cut. -/
def store (run : Run σ α) (remarks : Journal) (piece : Record) : Run σ α × Option Error :=
  let run := { run with remarks := run.remarks ++ remarks }.absorb (run.builder.insert piece)
  (run, run.failure)

/-- Stores a record, in the pieces that the overlay cuts if there is one. -/
def insert (run : Run σ α) (record : Record) : Run σ α :=
  match run.overlay with
  | none => run.absorb (run.builder.insert record)
  | some sweep =>
    let (run, _, sweep) := sweep.feed store run record
    { run with overlay := some sweep }

/-- Interrupts the build if that was asked for. -/
def heed (run : Run σ α) : Run σ α :=
  if run.interrupted ∧ run.failure.isNone then
    let (reply, disk) := run.builder.interrupt run.disk
    { run with disk }.absorb reply
  else run

/-- Takes the result of the next line. -/
def step (run : Run σ α) (result : LineResult) : Run σ α :=
  let run := run.heed
  if run.failure.isSome then run
  else
    match result with
    | .ok record => run.insert record
    | .error e => run.absorb (run.builder.reportParseError e)

/-- Takes the results of some lines. -/
def feed (run : Run σ α) (results : List LineResult) : Run σ α := results.foldl step run

/-- The end of the source, which may be a failure. -/
def close (run : Run σ α) (fault : Option IoError) : Run σ α :=
  let run := run.heed
  { run with failure := run.failure.or (fault.map .io) }

/-! ## Line by line -/

/-- Ingests a source line by line. -/
def ingestLines (run : Run σ α) (reader : LineReader) (keepSource : Bool) (source : Supply) :
    Run σ α :=
  let source := source.resumed
  (run.feed (source.lines.map (reader keepSource))).close source.fault

end Run

/-! ## In batches -/

/-- A run that takes results in batches, which arrive in any order. -/
structure Consumer (σ α : Type) where
  run : Run σ α
  /-- The number of the batch whose turn it is. -/
  next : Nat := 0
  /-- Batches that came early. -/
  waiting : List (Nat × List LineResult) := []

namespace Consumer

variable {σ α : Type}

theorem length_eraseP_lt {β : Type} {p : β → Bool} {xs : List β} {x : β}
    (h : xs.find? p = some x) : (xs.eraseP p).length < xs.length := by
  have hm := List.mem_of_find?_eq_some h
  have hn := List.length_pos_of_mem hm
  rw [List.length_eraseP_of_mem hm (List.find?_some h)]; omega

/-- Takes every waiting batch whose turn has come. -/
def release (c : Consumer σ α) : Consumer σ α :=
  match h : c.waiting.find? (·.1 = c.next) with
  | none => c
  | some (_, results) =>
    have := length_eraseP_lt h
    release
      { run := c.run.feed results
        next := c.next + 1
        waiting := c.waiting.eraseP (·.1 = c.next) }
  termination_by c.waiting.length

/-- Takes a batch that arrives, if it is its turn, or lets it wait. -/
def arrive (c : Consumer σ α) (arrival : Nat × List LineResult) : Consumer σ α :=
  { c with waiting := arrival :: c.waiting }.release

end Consumer

namespace Run

variable {σ α : Type}

/-- Takes numbered batches of results as they arrive. -/
def consume (run : Run σ α) (arrivals : List (Nat × List LineResult)) : Run σ α :=
  (arrivals.foldl Consumer.arrive { run }).run

/-- The results of the batches of a source, numbered in the order of the source. -/
def numberedResults (reader : LineReader) (keepSource : Bool) (batches : List Batch) :
    List (Nat × List LineResult) :=
  batches.zipIdx.map fun (batch, number) => (number, batch.lines.map (reader keepSource))

/-- The end of a source that was read in batches; a failure of the source is remarked on. -/
def closeBatches (run : Run σ α) (label : Path) (fault : Option IoError) : Run σ α :=
  let run := run.heed
  match run.failure, fault with
  | none, some e =>
    { run with
      remarks := run.remarks ++ [⟨.error, s!"{label}: read failed: {e.message}"⟩]
      failure := some (.io e) }
  | _, _ => run

/-- The remark that a source is being ingested. -/
def opening (run : Run σ α) (label : Path) (settings : Settings) : Remark :=
  ⟨.debug, s!"{run.builder.provider}: ingesting {label} with {settings.workerCount} " ++
    "parse workers"⟩

/-- Ingests a source in batches; `label` is the name it goes by in remarks. -/
def ingest (run : Run σ α) (reader : LineReader) (settings : Settings) (label : Path)
    (source : Supply) : Run σ α :=
  let source := source.stopped
  let run := { run with remarks := run.remarks ++ [run.opening label settings] }
  let results := numberedResults reader settings.keepSource (source.batches settings.batchBytes)
  (run.consume results).closeBatches label source.fault

/-- What a run came to. -/
def result (run : Run σ α) : Except Error Unit :=
  match run.failure with
  | none => .ok ()
  | some e => .error e

end Run

end IpAtlas
