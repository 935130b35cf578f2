/-! # Computations that may fail

When a computation made of others succeeds or fails, in terms of the others.

* **`bind_eq_ok_iff`**, **`bind_eq_error_iff`**: one computation after another.
* **`checked_eq_ok_iff`**, **`guarded_eq_ok_iff`**: a computation after a check.
* **`map_eq_ok_iff`**, **`map_eq_error_iff`**: a function of a result. -/

namespace ClausalForm

variable {ε α β : Type}

/-- `(x >>= f) = .ok b`: two computations succeed one after the other if `x` gives some `a`, and `f`
then gives `b` for it. -/
theorem bind_eq_ok_iff {x : Except ε α} {f : α → Except ε β} {b : β} :
    (x >>= f) = .ok b ↔ ∃ a, x = .ok a ∧ f a = .ok b := by
  cases x <;> simp [bind, Except.bind]

/-- `(x >>= f) = .error e`: two computations fail one after the other if the first one fails, or if
it gives some `a` and `f` fails for it. The error is passed on as it is. -/
theorem bind_eq_error_iff {x : Except ε α} {f : α → Except ε β} {e : ε} :
    (x >>= f) = .error e ↔ x = .error e ∨ ∃ a, x = .ok a ∧ f a = .error e := by
  cases x <;> simp [bind, Except.bind]

/-- `(x >>= fun _ => y) = .ok a`: behind a check `x` that returns nothing, a computation succeeds if
the check passes. -/
theorem checked_eq_ok_iff {x : Except ε Unit} {y : Except ε α} {a : α} :
    (x >>= fun _ => y) = .ok a ↔ x = .ok () ∧ y = .ok a := by
  cases x <;> simp [bind, Except.bind]

/-- `(if p then .error e else x) = .ok a`: behind a guard, a computation succeeds if `p` is
false. -/
theorem guarded_eq_ok_iff {p : Prop} [Decidable p] {e : ε} {x : Except ε α} {a : α} :
    (if p then .error e else x) = .ok a ↔ ¬ p ∧ x = .ok a := by
  by_cases h : p
  · simp [h]
  · simp [h]

/-- `f <$> x = .ok b`: a function of a result succeeds if there is a result. -/
theorem map_eq_ok_iff {x : Except ε α} {f : α → β} {b : β} :
    f <$> x = .ok b ↔ ∃ a, x = .ok a ∧ f a = b := by
  cases x <;> simp [Functor.map, Except.map]

/-- `f <$> x = .error e`: a function of a result fails if there is no result, with the same
error. -/
theorem map_eq_error_iff {x : Except ε α} {f : α → β} {e : ε} :
    f <$> x = .error e ↔ x = .error e := by
  cases x <;> simp [Functor.map, Except.map]

end ClausalForm
