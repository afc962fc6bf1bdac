import IpAtlas.Ingest
import IpAtlas.Overlay.VpnTable

/-!
# Line sources

A line source is a file with everything needed to build a database from it: how its lines are read,
where the ranges are kept, which tables of private networks are laid over them, and who is told.

Building one either gives a database or an error, and an error leaves nothing behind: whatever the
builder had stored is given up.

## What is here

* `LineSource` — the source.
* `openTables` — the tables of private networks as one track.
* `LineSource.build`, `BuildOutcome` — the database it gives.
-/

set_option autoImplicit false

namespace IpAtlas

/-- A file with everything needed to build a database from it. -/
structure LineSource (σ : Type) where
  path : Path
  reader : LineReader
  settings : Settings := {}
  /-- Tables of private networks, read as one sequence. -/
  vpnSources : List Path := []
  vpnLayout : VpnLayout := {}
  listener : Listener σ
  /-- The state of the listener to begin with. -/
  state : σ

/-- What a build comes to: the result, the disk then, whether an interruption was asked for, and the
remarks made. -/
structure BuildOutcome where
  result : Except Error Database
  disk : Disk
  interrupted : Bool := false
  remarks : Journal := []

/-- Tables of private networks as one track, if all of them can be opened. -/
def openTables (disk : Disk) (layout : VpnLayout) (paths : List Path) :
    Except IoError (Track Flag) := do
  let sources ← paths.mapM fun path => (openSource disk path).map (layout.items path)
  return Track.ofSources sources

namespace LineSource

variable {σ : Type}

/-- The sweep over the tables of a source, if it has tables. -/
def overlay (source : LineSource σ) (disk : Disk) : Except IoError (Option (Sweep Flag)) :=
  if source.vpnSources.isEmpty then .ok none
  else
    (openTables disk source.vpnLayout source.vpnSources).map fun track =>
      some (Sweep.ofTracks [track] .privateNetwork)

/-- A run over a source, before its first line. -/
def open? (source : LineSource σ) (disk : Disk) : Except IoError (Stream × Option (Sweep Flag)) := do
  let stream ← openSource disk source.path source.settings.batchBytes
  return (stream, ← source.overlay disk)

/-- The end of a build that failed: what was stored is given up. -/
def giveUp (b : Builder σ) (disk : Disk) (e : Error) (interrupted : Bool) (remarks : Journal) :
    BuildOutcome :=
  let (disk, more) := b.drop disk
  { result := .error e, disk, interrupted, remarks := remarks ++ more }

/-- The end of a run. -/
def conclude (run : Run σ Flag) : BuildOutcome :=
  match run.failure with
  | some e => giveUp run.builder run.disk e run.interrupted run.remarks
  | none =>
    let (result, _, disk, remarks) := run.builder.finish run.disk
    { result, disk, interrupted := run.interrupted, remarks := run.remarks ++ remarks }

/-- Builds the database of a source.  `interrupted` tells whether an interruption was asked for
already. -/
def build (source : LineSource σ) (provider : Provider) (interrupted : Bool) (disk : Disk) :
    BuildOutcome :=
  match Builder.start disk provider source.settings.storage source.listener source.state with
  | (.error e, disk) => { result := .error e, disk, interrupted }
  | (.ok builder, disk) =>
    match source.open? disk with
    | .error e => giveUp builder disk (.io e) interrupted []
    | .ok (stream, overlay) =>
      let run : Run σ Flag := { builder, overlay, disk, interrupted }
      conclude (run.ingest source.reader source.settings source.path stream)

end LineSource

end IpAtlas
