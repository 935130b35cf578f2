import ClausalForm.NormalizationError

/-! # Recorded messages

A computation may leave messages behind. They are values in the order in which they were recorded,
and those recorded before an error are kept.

* **`Recorded`**: a value or an error, with the messages on the way to it.
* **`Threaded`**: a computation that also threads a state; the state reached is kept as well when
  it fails.

Both are monads, so that a pass reads as a sequence of steps. -/

namespace ClausalForm

/-- How severe a message is, the most severe first. -/
inductive Severity where
  | error
  | warn
  | info
  | debug
  | trace
deriving Repr, DecidableEq, Inhabited

/-- The place of a severity in the order from `error` to `trace`. -/
def Severity.rank : Severity → Nat
  | error => 0
  | warn => 1
  | info => 2
  | debug => 3
  | trace => 4

/-- A recorded message. -/
structure LogEntry where
  severity : Severity
  text : String
deriving Repr, DecidableEq, Inhabited

/-- A value or an error, with the messages recorded on the way to it. What was recorded before an
error stays. -/
structure Recorded (ε α : Type) where
  result : Except ε α
  log : List LogEntry

namespace Recorded

variable {ε ε' α β : Type}

/-- `ofExcept r`: a result without messages. -/
def ofExcept (r : Except ε α) : Recorded ε α := ⟨r, []⟩

/-- `record severity text`: one message, and nothing else. -/
def record (severity : Severity) (text : String) : Recorded ε Unit := ⟨.ok (), [⟨severity, text⟩]⟩

/-- `x.andThen f`: one computation after another. Nothing follows an error. -/
def andThen (x : Recorded ε α) (f : α → Recorded ε β) : Recorded ε β :=
  match x.result with
  | .ok a => ⟨(f a).result, x.log ++ (f a).log⟩
  | .error e => ⟨.error e, x.log⟩

instance : Monad (Recorded ε) where
  pure a := ⟨.ok a, []⟩
  bind := andThen

/-- `x.mapError f`: the computation with its error replaced, its messages kept. -/
def mapError (f : ε → ε') (x : Recorded ε α) : Recorded ε' α := ⟨x.result.mapError f, x.log⟩

@[simp] theorem result_pure (a : α) : (pure a : Recorded ε α).result = .ok a := rfl

/-- `(x >>= f).result`: the result of two computations, one after the other, is that of their
results. Messages do not change it. -/
@[simp] theorem result_bind (x : Recorded ε α) (f : α → Recorded ε β) :
    (x >>= f).result = x.result >>= fun a => (f a).result := by
  change (andThen x f).result = _
  unfold andThen
  cases x.result <;> rfl

@[simp] theorem result_ofExcept (r : Except ε α) : (ofExcept r).result = r := rfl

@[simp] theorem result_record (severity : Severity) (text : String) :
    (record severity text : Recorded ε Unit).result = .ok () := rfl

end Recorded

/-- A computation that threads a state of type `σ`. The state and the messages that it has reached
survive an error. -/
def Threaded (σ ε α : Type) : Type := σ → Recorded ε α × σ

namespace Threaded

variable {σ ε α β : Type}

/-- `x.andThen f`: one computation after another, with the state that `x` leaves. Nothing follows an
error, and the state stays as it was there. -/
def andThen (x : Threaded σ ε α) (f : α → Threaded σ ε β) : Threaded σ ε β := fun s =>
  match x s with
  | (⟨.ok a, log⟩, s') => (⟨(f a s').1.result, log ++ (f a s').1.log⟩, (f a s').2)
  | (⟨.error e, log⟩, s') => (⟨.error e, log⟩, s')

instance : Monad (Threaded σ ε) where
  pure a := fun s => (pure a, s)
  bind := andThen

/-- `ofRecorded x`: a computation that leaves the state alone. -/
def ofRecorded (x : Recorded ε α) : Threaded σ ε α := fun s => (x, s)

/-- `ofState x`: a computation that only threads the state. -/
def ofState (x : StateM σ α) : Threaded σ ε α := fun s => (pure (x s).1, (x s).2)

end Threaded

end ClausalForm
