import IpAtlas.Proofs.Ingest
import IpAtlas.Proofs.Intake.Run

/-!
# What a run keeps

A run touches its builder in two ways only: it hands it the result of a line, or a piece of a record,
and it interrupts it.  What both of them keep, of the builder, the disk and the failure of the run,
is kept by a record that is cut into pieces, by a line, and by a source that is ingested, in whatever
batches.

## What is here

* `Run.Kept`, `Run.Kept.feed` — a property that both calls keep, and so do lines.
* `Run.Invariant`, `Run.Invariant.ingest` — one that sources keep that cannot be read to their ends.
-/

set_option autoImplicit false

namespace IpAtlas.Run

variable {σ α : Type} {P : Builder σ → Disk → Option Error → Prop} {run run' : Run σ α}

/-- A property of the builder of a run, of the disk and of why the run has failed, that is kept
whenever the builder is called. -/
structure Kept (P : Builder σ → Disk → Option Error → Prop) : Prop where
  take {b : Builder σ} {disk : Disk} {failure : Option Error} (h : P b disk failure)
    (result : LineResult) : P (b.take result).builder disk (errorOf? (b.take result).result)
  interrupt {b : Builder σ} {disk : Disk} {failure : Option Error} (h : P b disk failure) :
    P (b.interrupt disk).1.builder (b.interrupt disk).2 (errorOf? (b.interrupt disk).1.result)

/-- One that is kept as well when the source cannot be read to its end. -/
structure Invariant (P : Builder σ → Disk → Option Error → Prop) : Prop extends Kept P where
  fault {b : Builder σ} {disk : Disk} (h : P b disk none) (e : IoError) : P b disk (some (.io e))

/-- A run of which a property holds. -/
def Has (P : Builder σ → Disk → Option Error → Prop) (run : Run σ α) : Prop :=
  P run.builder run.disk run.failure

theorem Has.of_alike (h : run'.Has P) (halike : Alike run run') : run.Has P := by
  rw [Has, halike.builder, halike.disk, halike.failure]
  exact h

theorem Kept.handOver (hP : Kept P) (h : run.Has P) (s : Sweep α)
    (cuts : List (Sweep.Cut α)) : (Sweep.handOver Run.store run s cuts).1.Has P := by
  induction cuts generalizing run s with
  | nil => exact h
  | cons cut cuts ih =>
    have hstored : (run.store cut.remarks cut.piece).1.Has P := hP.take h (.ok cut.piece)
    rw [handOver_cons]
    split
    · exact hstored
    · exact ih hstored cut.sweep

theorem Kept.insert (hP : Kept P) (h : run.Has P) (record : Record) :
    (run.insert record).Has P := by
  rw [Run.insert]
  split
  · exact hP.take h (.ok record)
  · rename_i s _
    exact hP.handOver h s (s.cuts record)

theorem Kept.heed (hP : Kept P) (h : run.Has P) : run.heed.Has P := by
  rw [Run.heed]
  split
  · exact hP.interrupt h
  · exact h

theorem Kept.step (hP : Kept P) (h : run.Has P) (result : LineResult) :
    (run.step result).Has P := by
  rw [Run.step.eq_def]
  dsimp only
  split
  · exact hP.heed h
  · cases result with
    | ok record => exact hP.insert (hP.heed h) record
    | error e => exact hP.take (hP.heed h) (.error e)

/-- **Some lines keep what every call keeps.** -/
theorem Kept.feed (hP : Kept P) (h : run.Has P) (results : List LineResult) :
    (run.feed results).Has P := by
  induction results generalizing run with
  | nil => exact h
  | cons result results ih => exact ih (hP.step h result)

theorem Invariant.close (hP : Invariant P) (h : run.Has P) (fault : Option IoError) :
    (run.close fault).Has P := by
  have hheed : P run.heed.builder run.heed.disk run.heed.failure := hP.heed h
  rw [Has, Run.close]
  cases hfailure : run.heed.failure with
  | some e =>
    rw [hfailure] at hheed
    exact hheed
  | none =>
    rw [hfailure] at hheed
    cases fault with
    | none => exact hheed
    | some e => exact hP.fault hheed e

/-- **A source that is ingested keeps what every call keeps.** -/
theorem Invariant.ingest (hP : Invariant P) (h : run.Has P) (reader : LineReader)
    (settings : Settings) (label : Path) (source : Stream) :
    (run.ingest reader settings label source).Has P :=
  (hP.close (hP.feed h _) _).of_alike (mayIngest_ingest run reader settings label source).alike

end IpAtlas.Run
