import IpAtlas.Search
import Mathlib.Data.List.Basic

/-!
# What binary search finds

`firstFailure` halves an interval without looking at anything but the middle.  If the test holds
below some place and nowhere from there on, that place is what the search comes to, wherever the
interval began and ended; and a search whose test can fail comes to the same place as long as the
test does not fail inside the interval.

## What is here

* `firstFailure_eq` — the place where the test stops holding.
* `firstFailureM_eq` — a test that never fails may be replaced by one that cannot.
* `firstFailureM_le` — the search does not leave the interval.
-/

set_option autoImplicit false

namespace IpAtlas

/-- **The search finds the place where a test stops holding**, if there is one. -/
theorem firstFailure_eq {test : Nat → Bool} {low high k : Nat} (hlow : low ≤ k) (hhigh : k ≤ high)
    (hbelow : ∀ i, i < k → test i = true) (habove : ∀ i, k ≤ i → i < high → test i = false) :
    firstFailure test low high = k := by
  fun_induction firstFailure test low high with
  | case1 low high hlt middle hm ih =>
    refine ih ?_ hhigh habove
    by_contra hk
    have h := habove middle (by omega) (by omega)
    rw [hm] at h
    exact absurd h (by simp)
  | case2 low high hlt middle hm ih =>
    refine ih hlow ?_ fun i hi hlt' => habove i hi (by omega)
    by_contra hk
    exact hm (hbelow middle (by omega))
  | case3 low high hlt => omega

theorem firstFailureM_eq {ε : Type} {test : Nat → Except ε Bool} {test' : Nat → Bool}
    {low high : Nat} (h : ∀ i, i < high → test i = .ok (test' i)) :
    firstFailureM test low high = .ok (firstFailure test' low high) := by
  fun_induction firstFailure test' low high with
  | case1 low high hlt middle hm ih =>
    rw [firstFailureM, dif_pos hlt]
    simp only [h _ (show low + (high - low) / 2 < high by omega)]
    rw [show test' (low + (high - low) / 2) = true from hm]
    exact ih h
  | case2 low high hlt middle hm ih =>
    rw [firstFailureM, dif_pos hlt]
    simp only [h _ (show low + (high - low) / 2 < high by omega)]
    rw [show test' (low + (high - low) / 2) = false by simpa using hm]
    exact ih fun i hi => h i (by omega)
  | case3 low high hlt => rw [firstFailureM, dif_neg hlt]

/-- The search does not leave the interval. -/
theorem firstFailureM_le {ε : Type} {test : Nat → Except ε Bool} {low high k : Nat}
    (hle : low ≤ high) (h : firstFailureM test low high = .ok k) : k ≤ high := by
  fun_induction firstFailureM test low high with
  | case1 low high hlt middle e hm => exact nomatch h
  | case2 low high hlt middle hm ih => exact ih (by omega) h
  | case3 low high hlt middle hm ih => exact Nat.le_trans (ih (by omega) h) (by omega)
  | case4 low high hlt =>
    obtain rfl := Except.ok.inj h
    exact hle

end IpAtlas
