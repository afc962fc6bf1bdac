import IpAtlas.IoError
import IpAtlas.Bytes

/-!
# Streams

What reading a source to its end gives: bytes, and then the end or a failure.  A failure comes after
every byte before it has been handed out, and whoever reads decides what to do with those.

A read may be interrupted on the way.  That is no end: nothing is lost, and a reader who asks again
goes on where it was.  One who does not ask again takes the first interruption for a failure.

## What is here

* `Stream` — bytes and how they end.
* `Stream.contents` — all of the bytes, if the stream ends well.
* `Supply` — a stream that comes with interruptions.
* `Supply.resumed`, `Supply.stopped` — what it is to those who ask again, and to those who do not.
-/

set_option autoImplicit false

namespace IpAtlas

/-- Bytes, and the failure that ends them if they do not simply end. -/
structure Stream where
  bytes : Bytes
  fault : Option IoError := none
  deriving DecidableEq, Repr

namespace Stream

/-- A stream that fails at once. -/
def failing (e : IoError) : Stream := ⟨[], some e⟩

/-- Bytes handed out before a stream. -/
def prepend (bs : Bytes) (s : Stream) : Stream := ⟨bs ++ s.bytes, s.fault⟩

/-- All bytes of a stream that ends well. -/
def contents (s : Stream) : Except IoError Bytes :=
  match s.fault with
  | none => .ok s.bytes
  | some e => .error e

end Stream

/-- A stream that comes with interruptions. -/
structure Supply where
  /-- What is read before each of the interruptions, and what the interruption says. -/
  interrupted : List (Bytes × String) := []
  /-- What is read after the last. -/
  rest : Stream
  deriving DecidableEq, Repr

namespace Supply

/-- A stream that nothing interrupts. -/
instance : Coe Stream Supply := ⟨fun rest => { rest }⟩

/-- The stream to a reader who asks again. -/
def resumed (s : Supply) : Stream := s.rest.prepend (s.interrupted.flatMap Prod.fst)

/-- The stream to a reader who does not. -/
def stopped (s : Supply) : Stream :=
  match s.interrupted with
  | [] => s.rest
  | (bytes, message) :: _ => ⟨bytes, some ⟨.interrupted, message⟩⟩

end Supply

end IpAtlas
