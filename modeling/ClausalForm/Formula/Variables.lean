import ClausalForm.Formula.Construct

/-! # Variables of a formula

* **`Formula.freeVariables`**: the variables with a free occurrence, in the order of their first
  ones.
* **`Formula.boundVariables`**: the variables that quantifiers bind, one entry per binding, outer
  quantifiers first.
* **`Formula.variableNames`**: every name used, bound ones first.
* **`Formula.rename`**: free occurrences replaced along a `Renaming`; a quantifier shields the
  variables it binds. -/

namespace ClausalForm

/-- A finite renaming of variables, as pairs of an old and a new name. The first pair of a name
counts, and a name without a pair is kept. -/
abbrev Renaming := List (String × String)

namespace Renaming

/-- `m.rename x`: the new name of the variable `x`. -/
def rename (m : Renaming) (x : String) : String := (m.lookup x).getD x

/-- The renaming without its pairs for the names `xs`. -/
def without (m : Renaming) (xs : List String) : Renaming := m.filter fun p => !xs.contains p.1

/-- The renaming of each of `xs` to the name at its place in `ys`. If a name stands in `xs` twice,
its last place counts. -/
def ofPlaces (xs ys : List String) : Renaming := (xs.zip ys).reverse

end Renaming

namespace Formula

/-- `φ.freeOccurrences`: the free occurrences of variables, from left to right. A quantifier takes
out those of its own variables. -/
def freeOccurrences : Formula → List String
  | .atom a => a.occurrences
  | .not φ => φ.freeOccurrences
  | .connective _ φs => φs.flatMap freeOccurrences
  | .quantified _ xs φ => φ.freeOccurrences.filter fun x => !xs.contains x

/-- `φ.freeVariables`: the variables with a free occurrence, each once. -/
def freeVariables (φ : Formula) : List String := distinct φ.freeOccurrences

/-- `φ.boundVariables`: the variables that quantifiers bind, one entry for each binding, outer
quantifiers first. -/
def boundVariables : Formula → List String
  | .atom _ => []
  | .not φ => φ.boundVariables
  | .connective _ φs => φs.flatMap boundVariables
  | .quantified _ xs φ => xs ++ φ.boundVariables

/-- `φ.occurrences`: all occurrences of variables in atoms, free or not, from left to right. -/
def occurrences : Formula → List String
  | .atom a => a.occurrences
  | .not φ => φ.occurrences
  | .connective _ φs => φs.flatMap occurrences
  | .quantified _ _ φ => φ.occurrences

/-- `φ.variableNames`: every variable name used in a formula, each once. Those that are bound come
first. -/
def variableNames (φ : Formula) : List String := distinct (φ.boundVariables ++ φ.occurrences)

/-- `φ.rename m`: the formula with its free occurrences renamed. Below a quantifier the pairs of its
variables are left out; a new name may be captured there. -/
def rename (m : Renaming) : Formula → Formula
  | .atom a => .atom (a.rename m.rename)
  | .not φ => .not (φ.rename m)
  | .connective op φs => .connective op (φs.map (rename m))
  | .quantified q xs φ => .quantified q xs (φ.rename (m.without xs))

/-- `φ.isStandardized`: whether no variable is bound twice. -/
def isStandardized (φ : Formula) : Bool := distinct φ.boundVariables = φ.boundVariables

end Formula

end ClausalForm
