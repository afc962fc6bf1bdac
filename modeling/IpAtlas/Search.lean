/-!
# Binary search

Looking for the place where a test that holds up to some point stops holding.  The search halves the
places between a lower and an upper bound and asks the test of the place in the middle, so it comes
to an answer for any test; if the test is monotone, the answer is the number of places where it
holds.

## What is here

* `firstFailure` — the search with a test that always answers.
* `firstFailureM` — the search with a test that may fail.
-/

set_option autoImplicit false

namespace IpAtlas

/-- The first place from `low` to `high` where a monotone test does not hold. -/
def firstFailure (test : Nat → Bool) (low high : Nat) : Nat :=
  if h : low < high then
    let middle := low + (high - low) / 2
    if test middle then firstFailure test (middle + 1) high
    else firstFailure test low middle
  else low
  termination_by high - low

/-- The first place from `low` to `high` where a monotone test does not hold, or the failure of the
test at a place where it was asked. -/
def firstFailureM {ε : Type} (test : Nat → Except ε Bool) (low high : Nat) : Except ε Nat :=
  if _h : low < high then
    let middle := low + (high - low) / 2
    match test middle with
    | .error e => .error e
    | .ok true => firstFailureM test (middle + 1) high
    | .ok false => firstFailureM test low middle
  else .ok low
  termination_by high - low

end IpAtlas
