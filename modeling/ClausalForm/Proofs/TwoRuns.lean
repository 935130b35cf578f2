import ClausalForm.Proofs.Threading
import Mathlib.Data.List.Forall2

/-! # Two runs side by side

Two computations that thread states run together if both return, with values and states that are
related, or both fail with the same error. As for one run, what holds of two runs is read off from
their last steps to the first ones.

* **`Matched`**: two results that are both values or both errors, and related as such.
* **`Threaded.Together`**: two runs with matched results and a condition on the states.
* **`Threaded.together_bind`**, **`Threaded.together_inOrder`**: one step of each after another. -/

namespace ClausalForm

/-- Both results are values that satisfy `returned`, or both are errors that satisfy `failed`. -/
inductive Matched {ε ε' α β : Type} (returned : α → β → Prop) (failed : ε → ε' → Prop) :
    Except ε α → Except ε' β → Prop
  | ok {a : α} {b : β} (related : returned a b) : Matched returned failed (.ok a) (.ok b)
  | error {e : ε} {e' : ε'} (related : failed e e') : Matched returned failed (.error e) (.error e')

/-- `Matched returned failed x y`: what is known of the values may be weakened. -/
theorem Matched.mono {ε ε' α β : Type} {returned returned' : α → β → Prop}
    {failed : ε → ε' → Prop} {x : Except ε α} {y : Except ε' β} (h : Matched returned failed x y)
    (weaker : ∀ a b, returned a b → returned' a b) : Matched returned' failed x y := by
  cases h with
  | ok related => exact .ok (weaker _ _ related)
  | error related => exact .error related

/-- `Matched` results stay matched by what follows them. -/
theorem Matched.bind {ε ε' α β γ δ : Type} {returned : α → β → Prop} {final : γ → δ → Prop}
    {failed : ε → ε' → Prop} {x : Except ε α} {y : Except ε' β} {f : α → Except ε γ}
    {g : β → Except ε' δ} (h : Matched returned failed x y)
    (rest : ∀ a b, returned a b → Matched final failed (f a) (g b)) :
    Matched final failed (x >>= f) (y >>= g) := by
  cases h with
  | ok related => exact rest _ _ related
  | error related => exact .error related

/-- `Matched Eq Eq x y`: results that match by equality are equal. -/
theorem Matched.eq {ε α : Type} {x y : Except ε α} (h : Matched Eq Eq x y) : x = y := by
  cases h with
  | ok same => rw [same]
  | error same => rw [same]

/-- `Matched Eq Eq x x`: a result matches itself. -/
theorem Matched.refl {ε α : Type} (x : Except ε α) : Matched Eq Eq x x := by
  cases x with
  | ok a => exact .ok rfl
  | error e => exact .error rfl

namespace Threaded

variable {σ τ ε α β γ δ : Type} {s : σ} {t : τ} {returned : α → σ → β → τ → Prop}

/-- From the states `s` and `t` both computations return, with values and states that satisfy
`returned`, or both fail with the same error. -/
def Together (x : Threaded σ ε α) (s : σ) (y : Threaded τ ε β) (t : τ)
    (returned : α → σ → β → τ → Prop) : Prop :=
  Matched (fun a b => returned a (x s).2 b (y t).2) Eq (x s).1.result (y t).1.result

/-- `x.Together s y t returned`: what is known of both values and states may be weakened. -/
theorem Together.mono {returned' : α → σ → β → τ → Prop} {x : Threaded σ ε α}
    {y : Threaded τ ε β} (h : x.Together s y t returned)
    (weaker : ∀ a s b t, returned a s b t → returned' a s b t) :
    x.Together s y t returned' :=
  Matched.mono h fun a b => weaker a _ b _

/-- `x.Together s x s`: a run is the same as itself, and both ensure what it ensures. -/
theorem Ensures.together {x : Threaded σ ε α} {ensured : α → σ → Prop} {failed : ε → Prop}
    (h : x.Ensures s ensured failed) :
    x.Together s x s fun a s b t => a = b ∧ s = t ∧ ensured a s := by
  unfold Together
  cases result : (x s).1.result with
  | ok a => exact .ok ⟨rfl, rfl, h.of_ok result⟩
  | error e => exact .error rfl

/-- Values without any step. -/
theorem together_pure {a : α} {b : β} (h : returned a s b t) :
    (pure a : Threaded σ ε α).Together s (pure b : Threaded τ ε β) t returned :=
  .ok h

/-- `x >>= f` beside `y >>= g`: one computation after another, in both runs. -/
theorem together_bind {x : Threaded σ ε α} {y : Threaded τ ε β} {f : α → Threaded σ ε γ}
    {g : β → Threaded τ ε δ} {final : γ → σ → δ → τ → Prop}
    (first : x.Together s y t returned)
    (second : ∀ a s b t, returned a s b t → (f a).Together s (g b) t final) :
    (x >>= f).Together s (y >>= g) t final := by
  show (andThen x f).Together s (andThen y g) t final
  unfold Together andThen at *
  -- Each run has reached a result and a state before its second computation.
  generalize x s = before at *
  generalize y t = before' at *
  obtain ⟨⟨result, log⟩, s⟩ := before
  obtain ⟨⟨result', log'⟩, t⟩ := before'
  cases first with
  | ok related => exact second _ _ _ _ related
  | error same => exact .error same

/-- `f <$> x` beside `g <$> y`: functions of the two values. -/
theorem together_map {x : Threaded σ ε α} {y : Threaded τ ε β} {f : α → γ} {g : β → δ}
    {final : γ → σ → δ → τ → Prop}
    (h : x.Together s y t fun a s b t => final (f a) s (g b) t) :
    (f <$> x).Together s (g <$> y) t final :=
  together_bind h fun _ _ _ _ related => together_pure related

/-- `inOrder xs` beside `inOrder ys`: computations in order, in both runs. What is `invariant` of
the two states is kept by each pair of computations, and their values are `related` one by one. -/
theorem together_inOrder {invariant : σ → τ → Prop} {related : α → β → Prop}
    {xs : List (Threaded σ ε α)} {ys : List (Threaded τ ε β)}
    (each : List.Forall₂ (fun x y => ∀ s t, invariant s t →
      x.Together s y t fun a s b t => related a b ∧ invariant s t) xs ys)
    (start : invariant s t) :
    (inOrder xs).Together s (inOrder ys) t fun as s bs t =>
      List.Forall₂ related as bs ∧ invariant s t := by
  induction each generalizing s t with
  | nil => exact .ok ⟨.nil, start⟩
  | cons first _ ih =>
    rw [inOrder, inOrder]
    refine together_bind (first s t start) fun a s b t h => ?_
    refine together_bind (ih h.2) fun as s bs t rest => ?_
    exact together_pure ⟨.cons h.1 rest.1, rest.2⟩

/-- Computations that leave the states alone. -/
theorem together_ofRecorded {x : Recorded ε α} {y : Recorded ε β} :
    (ofRecorded x : Threaded σ ε α).Together s (ofRecorded y : Threaded τ ε β) t returned ↔
      Matched (fun a b => returned a s b t) Eq x.result y.result := Iff.rfl

/-- What comes after computations that only thread the states. -/
theorem together_ofState_bind {x : StateM σ α} {y : StateM τ β} {f : α → Threaded σ ε γ}
    {g : β → Threaded τ ε δ} {final : γ → σ → δ → τ → Prop} :
    (ofState x >>= f).Together s (ofState y >>= g) t final ↔
      (f (x s).1).Together (x s).2 (g (y t).1) (y t).2 final := Iff.rfl

/-- What comes after a message. -/
theorem together_record_bind {severity severity' : Severity} {text text' : String}
    {f : Unit → Threaded σ ε γ} {g : Unit → Threaded τ ε δ} {final : γ → σ → δ → τ → Prop} :
    (ofRecorded (.record severity text) >>= f).Together s
        (ofRecorded (.record severity' text') >>= g) t final ↔
      (f ()).Together s (g ()) t final := Iff.rfl

end Threaded

end ClausalForm
