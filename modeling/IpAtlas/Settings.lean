import IpAtlas.Storage

/-!
# Settings of a build

How a source is read and where its ranges are kept.  Workers only decide how far reading may run
ahead of storing; what is stored does not depend on them.

## What is here

* `Settings` — the settings, with their defaults.
* `Settings.workerCount`, `inFlightLimit` — how many workers there are, and how far they run ahead.
-/

set_option autoImplicit false

namespace IpAtlas

/-- How a source is read and where its ranges are kept. -/
structure Settings where
  /-- How many workers read lines; the library's choice where it is not given. -/
  workers : Option Nat := none
  /-- How many bytes are read at a time. -/
  batchBytes : Nat := 128 * 1024
  /-- Whether locations keep the line they come from. -/
  keepSource : Bool := false
  storage : Storage := .memory
  deriving DecidableEq, Repr

/-- How many workers there are where their number is not given. -/
def usualWorkers : Nat := 4

/-- How many workers read lines: at least one. -/
def Settings.workerCount (settings : Settings) : Nat := max (settings.workers.getD usualWorkers) 1

/-- How many batches each worker may have read that are not stored yet. -/
def inFlightPerWorker : Nat := 4

/-- How many batches may be read and not stored yet. -/
def inFlightLimit (workers : Nat) : Nat := max workers 1 * inFlightPerWorker

end IpAtlas
