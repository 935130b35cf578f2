/-! # Settings of the normalization

* **`Naming`**: which names bound variables are given.
* **`UnboundPolicy`**: what becomes of a variable without a quantifier.
* **`Settings`**: both together; the default is `unbounded` and `strict`. -/

namespace ClausalForm

/-- The names that bound variables are given. Both supplies start with `z`, `y`, ..., `a`. -/
inductive Naming where
  /-- Numbered rounds follow: `z1`, ..., `a1`, `z2`, and so on. -/
  | unbounded
  /-- Nothing follows: a 27th variable is an error. -/
  | alphabet
deriving Repr, DecidableEq, Inhabited

/-- What becomes of a variable without an enclosing quantifier. -/
inductive UnboundPolicy where
  /-- It is an error. -/
  | strict
  /-- It is kept, and a warning recorded. -/
  | permissive
deriving Repr, DecidableEq, Inhabited

/-- The settings of the normalization. Without a word, names do not run out and unbound variables
are an error. -/
structure Settings where
  naming : Naming := .unbounded
  unbound : UnboundPolicy := .strict
deriving Repr, DecidableEq, Inhabited

/-- `Settings.legacy`: one round of names, and unbound variables are kept. -/
def Settings.legacy : Settings := ⟨.alphabet, .permissive⟩

end ClausalForm
