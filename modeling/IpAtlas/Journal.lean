/-!
# Journals

What a build or a lookup has to say besides its result: remarks of four levels, in the order in
which they arise.  Functions that remark on something return their remarks; nothing is written
anywhere.

## What is here

* `Level` — how grave a remark is.
* `Remark` — a message at a level.
* `Journal`, `Journal.atLeast` — remarks in order, and the grave ones among them.
-/

set_option autoImplicit false

namespace IpAtlas

/-- How grave a remark is. -/
inductive Level where
  | debug
  | info
  | warn
  | error
  deriving DecidableEq, Repr

namespace Level

/-- The levels in ascending order. -/
def gravity : Level → Nat
  | debug => 0
  | info => 1
  | warn => 2
  | error => 3

/-- How a level is written. -/
def toText : Level → String
  | debug => "debug"
  | info => "info"
  | warn => "warn"
  | error => "error"

/-- The level a text names. -/
def ofText? (s : String) : Option Level :=
  [debug, info, warn, error].find? fun level => level.toText = s

end Level

/-- A message at a level. -/
structure Remark where
  level : Level
  message : String
  deriving DecidableEq, Repr

/-- Remarks in the order in which they arose. -/
abbrev Journal := List Remark

/-- The remarks of a level or a graver one. -/
def Journal.atLeast (level : Level) (journal : Journal) : Journal :=
  journal.filter fun remark => level.gravity ≤ remark.level.gravity

end IpAtlas
