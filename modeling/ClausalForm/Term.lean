import ClausalForm.Symbol

/-! # Terms and atoms

A term is a variable or a function applied to terms; a function without arguments is a constant.
An atom is a predicate applied to terms. Terms occur only inside atoms.

* **`Term.of`**, **`Atom.of`**: construction from names as they stand in the text; the name is
  spelled as an identifier.
* **`Term.occurrences`**, **`Atom.occurrences`**: the variables from left to right, with
  repetitions.
* **`Term.traverse`**, **`Atom.traverse`**: an effectful replacement of each variable, in that
  order; `Term.rename` and `Atom.rename` are the pure ones.
* **`Term.text`**, **`Atom.text`**: the printed form `f(x,c())`. -/

namespace ClausalForm

/-- A term of first-order logic. -/
inductive Term where
  /-- A variable. -/
  | var (name : String)
  /-- A function applied to arguments; a constant if there are none. -/
  | app (function : String) (args : List Term)
deriving Repr, BEq, Inhabited

/-- An atomic formula: a predicate applied to terms. -/
structure Atom where
  predicate : String
  args : List Term
deriving Repr, BEq, Inhabited

/-- `inOrder xs`: the computations of a list run from first to last, with the list of their values.
The first one that fails ends the run. -/
def inOrder {m : Type → Type} [Monad m] {α : Type} : List (m α) → m (List α)
  | [] => pure []
  | x :: xs => do
    let a ← x
    let as ← inOrder xs
    pure (a :: as)

namespace Term

/-- `Term.of function args`: an application whose function name is still to be spelled as an
identifier. -/
def of (function : String) (args : List Term) : Term :=
  .app (Symbol.spell function) args

/-- `t.isApplication`: whether a term applies a function, a constant included. -/
def isApplication : Term → Bool
  | .var _ => false
  | .app _ _ => true

/-- `t.occurrences`: the variables of a term, from left to right, with repetitions. -/
def occurrences : Term → List String
  | .var x => [x]
  | .app _ args => args.flatMap occurrences

/-- `t.rename f`: every variable `x` of a term replaced by `f x`. -/
def rename (f : String → String) : Term → Term
  | .var x => .var (f x)
  | .app g args => .app g (args.map (rename f))

/-- `t.traverse f`: `t.rename` with a computation `f`, which is run on the variables from left to
right. -/
def traverse {m : Type → Type} [Monad m] (f : String → m String) : Term → m Term
  | .var x => .var <$> f x
  | .app g args => .app g <$> inOrder (args.map (traverse f))

/-- `application name args`: the printed form `name(args)` of a function or predicate with its
printed arguments. -/
def application (name : String) (args : List String) : String :=
  name ++ "(" ++ ",".intercalate args ++ ")"

/-- The printed form of a term: a variable by its name, an application as `f(x,c())`. -/
def text : Term → String
  | .var x => x
  | .app g args => application g (args.map text)

instance : ToString Term := ⟨text⟩

end Term

namespace Atom

/-- `Atom.of predicate args`: an atom whose predicate is still to be spelled as an identifier. -/
def of (predicate : String) (args : List Term) : Atom :=
  ⟨Symbol.spell predicate, args⟩

/-- `a.arity`: the number of arguments. -/
def arity (a : Atom) : Nat := a.args.length

/-- `a.hasFunctions`: whether some argument applies a function. What stands inside an application
does not count. -/
def hasFunctions (a : Atom) : Bool := a.args.any Term.isApplication

/-- `a.occurrences`: the variables of an atom, from left to right, with repetitions. -/
def occurrences (a : Atom) : List String := a.args.flatMap Term.occurrences

/-- `a.rename f`: every variable `x` of an atom replaced by `f x`. -/
def rename (f : String → String) (a : Atom) : Atom := { a with args := a.args.map (·.rename f) }

/-- `a.traverse f`: `a.rename` with a computation `f`, which is run on the variables from left to
right. -/
def traverse {m : Type → Type} [Monad m] (f : String → m String) (a : Atom) : m Atom :=
  (⟨a.predicate, ·⟩) <$> inOrder (a.args.map (·.traverse f))

/-- The printed form of an atom, as `P(x,f(y))`. -/
def text (a : Atom) : String := Term.application a.predicate (a.args.map Term.text)

instance : ToString Atom := ⟨text⟩

end Atom

end ClausalForm
