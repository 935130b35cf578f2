import ClausalForm.Log
import ClausalForm.Term

/-! # What threaded computations ensure

A computation that threads a state either returns a value and a state or fails. What it ensures is
read off from its last step to its first one, so that a pass over a formula is followed step by
step.

* **`Threaded.Ensures`**: a condition on the value and the state, and one on the error.
* **`Threaded.ensures_bind`**, **`Threaded.ensures_inOrder_cons`**: one step after another. -/

namespace ClausalForm.Threaded

variable {σ ε α β : Type} {s : σ} {returned : α → σ → Prop} {failed : ε → Prop}

/-- From the state `s` the computation returns a value and a state that satisfy `returned`, or it
fails with an error that satisfies `failed`. -/
def Ensures (x : Threaded σ ε α) (s : σ) (returned : α → σ → Prop) (failed : ε → Prop) : Prop :=
  match (x s).1.result with
  | .ok a => returned a (x s).2
  | .error e => failed e

section Results

variable {x : Threaded σ ε α}

/-- `x.Ensures s returned failed`: a value that is returned is as ensured. -/
theorem Ensures.of_ok {a : α} (h : x.Ensures s returned failed) (ok : (x s).1.result = .ok a) :
    returned a (x s).2 := by
  unfold Ensures at h
  rwa [ok] at h

/-- `x.Ensures s returned failed`: an error is as ensured. -/
theorem Ensures.of_error {e : ε} (h : x.Ensures s returned failed)
    (error : (x s).1.result = .error e) : failed e := by
  unfold Ensures at h
  rwa [error] at h

end Results

/-- `x.Ensures s returned failed` may be weakened on both sides. -/
theorem Ensures.mono {returned' : α → σ → Prop} {failed' : ε → Prop} {x : Threaded σ ε α}
    (h : x.Ensures s returned failed) (value : ∀ a t, returned a t → returned' a t)
    (error : ∀ e, failed e → failed' e) : x.Ensures s returned' failed' := by
  unfold Ensures
  cases result : (x s).1.result with
  | ok a => exact value _ _ (h.of_ok result)
  | error e => exact error _ (h.of_error result)

/-- `pure a` ensures what `a` and the state have. -/
@[simp] theorem ensures_pure {a : α} :
    (pure a : Threaded σ ε α).Ensures s returned failed ↔ returned a s := Iff.rfl

/-- `x >>= f` ensures what `f` does after `x`. -/
theorem ensures_bind {x : Threaded σ ε α} {f : α → Threaded σ ε β} {returned : β → σ → Prop} :
    (x >>= f).Ensures s returned failed ↔
      x.Ensures s (fun a t => (f a).Ensures t returned failed) failed := by
  show (andThen x f).Ensures s returned failed ↔ _
  unfold Ensures andThen
  obtain ⟨⟨result, log⟩, t⟩ := x s
  cases result <;> rfl

/-- `f <$> x` ensures of the value of `x` what is said about its image. -/
theorem ensures_map {x : Threaded σ ε α} {f : α → β} {returned : β → σ → Prop} :
    (f <$> x).Ensures s returned failed ↔ x.Ensures s (fun a t => returned (f a) t) failed :=
  ensures_bind

/-- `inOrder (x :: xs)`: the first of some computations before the others. -/
theorem ensures_inOrder_cons {x : Threaded σ ε α} {xs : List (Threaded σ ε α)}
    {returned : List α → σ → Prop} :
    (inOrder (x :: xs)).Ensures s returned failed ↔
      x.Ensures s
        (fun a t => (inOrder xs).Ensures t (fun as u => returned (a :: as) u) failed) failed := by
  rw [inOrder, ensures_bind]
  simp only [ensures_bind, ensures_pure]

/-- `x.Ensures s` with nothing to ensure: every computation returns or fails. -/
theorem ensures_true (x : Threaded σ ε α) (s : σ) :
    x.Ensures s (fun _ _ => True) fun _ => True := by
  unfold Ensures
  cases (x s).1.result <;> trivial

/-- `inOrder xs`: computations in order return one value each. -/
theorem ensures_length_inOrder (xs : List (Threaded σ ε α)) (s : σ) :
    (inOrder xs).Ensures s (fun as _ => as.length = xs.length) fun _ => True := by
  induction xs generalizing s with
  | nil => exact rfl
  | cons x xs ih =>
    rw [ensures_inOrder_cons]
    refine (ensures_true x s).mono (fun a t _ => ?_) fun _ => id
    exact (ih t).mono (fun as u length => congrArg Nat.succ length) fun _ => id

/-- `ofRecorded x`: a computation that leaves the state alone. -/
theorem ensures_ofRecorded {x : Recorded ε α} :
    (ofRecorded x : Threaded σ ε α).Ensures s returned failed ↔
      match x.result with
      | .ok a => returned a s
      | .error e => failed e := Iff.rfl

/-- `ofState x`: a computation that only threads the state. -/
@[simp] theorem ensures_ofState {x : StateM σ α} :
    (ofState x : Threaded σ ε α).Ensures s returned failed ↔ returned (x s).1 (x s).2 := Iff.rfl

end ClausalForm.Threaded
