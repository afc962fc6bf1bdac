import IpAtlas.Error
import IpAtlas.Journal

/-!
# Listeners

Whoever builds a database is told what happens, and has a say where something is wrong: a record
that is out of order, a line that is no record.  A listener is four functions on a state of its own.
It answers with the state it is in then, what it has to remark, and whether it wants the build to be
interrupted; where it has a say, also with the error that is to end the build, if one is.

## What is here

* `Listener`, `Reaction`.
* `Listener.failFast`, `Listener.skipping` — the two that come with the library.
* `Notice`, `Witness`, `Listener.witnessed` — a listener whose notices are written down.
* `Listener.refusingLines`, `Listener.stoppingAfter` — variations on it.
-/

set_option autoImplicit false

namespace IpAtlas

/-- What a listener does when it is told something. -/
structure Reaction (σ : Type) where
  state : σ
  remarks : Journal := []
  /-- Whether the listener wants the build to be interrupted. -/
  stop : Bool := false

/-- Whoever is told what happens in a build. -/
structure Listener (σ : Type) where
  /-- A record was stored. -/
  added : σ → Provider → Record → Reaction σ
  /-- A record does not start after the end of the last one. -/
  outOfOrder : σ → Provider → Line → Error → Except Error Unit × Reaction σ
  /-- A line is no record. -/
  parseFailed : σ → Provider → ParseError → Except Error Unit × Reaction σ
  /-- The build was interrupted, and what it had stored is gone. -/
  interrupted : σ → Provider → Error → Reaction σ

namespace Listener

variable {σ : Type}

/-- A record out of order ends the build; a line that is no record is passed over with a warning. -/
def failFast : Listener σ where
  added state _ _ := { state }
  outOfOrder state _ _ cause := (.error cause, { state })
  parseFailed state provider e :=
    (.ok (), { state, remarks := [⟨.warn, s!"{provider}: skipping unparseable {e.message}"⟩] })
  interrupted state provider cause :=
    { state, remarks := [⟨.warn, s!"{provider}: {cause.message}"⟩] }

/-- A record out of order is passed over with a warning as well. -/
def skipping : Listener σ :=
  { failFast with
    outOfOrder := fun state provider line cause =>
      (.ok (), { state
                 remarks := [⟨.warn,
                   s!"{provider}: skipping line {line.number}: {cause.message}"⟩] }) }

/-- A line that is no record ends the build, and nothing is remarked. -/
def refusingLines (inner : Listener σ) : Listener σ :=
  { inner with parseFailed := fun state _ e => (.error (.parse e), { state }) }

end Listener

/-! ## Writing notices down -/

/-- What a listener was told. -/
inductive Notice where
  | added (line : Nat) (span : Span)
  | outOfOrder (provider : Provider) (line : Line) (cause : Error)
  | parseFailed (provider : Provider) (error : ParseError)
  | interrupted (provider : Provider) (cause : Error)
  deriving DecidableEq, Repr

namespace Notice

/-- Whether a notice is of a record that was stored. -/
def isAdded : Notice → Bool
  | added .. => true
  | _ => false

end Notice

/-- The notices of a listener, in the order in which they came. -/
abbrev Witness := List Notice

namespace Listener

/-- A listener whose notices are written down before it is told. -/
def witnessed (inner : Listener Witness) : Listener Witness where
  added state provider record :=
    inner.added (state ++ [.added record.line.number record.range.toSpan]) provider record
  outOfOrder state provider line cause :=
    inner.outOfOrder (state ++ [.outOfOrder provider line cause]) provider line cause
  parseFailed state provider e :=
    inner.parseFailed (state ++ [.parseFailed provider e]) provider e
  interrupted state provider cause :=
    inner.interrupted (state ++ [.interrupted provider cause]) provider cause

/-- A listener that wants an interruption when a number of records have been stored, as far as its
witness tells. -/
def stoppingAfter (count : Nat) (inner : Listener Witness) : Listener Witness :=
  { inner with
    added := fun state provider record =>
      let reaction := inner.added state provider record
      { reaction with stop := reaction.stop || reaction.state.countP Notice.isAdded = count } }

end Listener

end IpAtlas
