import ClausalForm.Formula.Variables
import ClausalForm.Log
import ClausalForm.Naming.Bound

/-! # Standardized formulas

A formula is standardized if no variable is bound twice, so that quantifiers can be moved around
without binding anything else. Standardizing gives each binding, in pre-order, the next name of a
`VariableSupply`; an occurrence follows its innermost binding. Free variables are an error under
the strict policy. Under the permissive one they are kept with a warning, and the new names avoid
them.

* **`Atom.standardize`**: an atom renamed along the bindings that enclose it.
* **`Formula.standardizeIn`**: a formula renamed below given bindings.
* **`Formula.standardize`**: a whole formula. -/

namespace ClausalForm

/-- `supply.issue`: the next name of the supply, which is left behind it. A supply that is used up
is left as it is. -/
def VariableSupply.issue : Threaded VariableSupply NormalizationError String := fun supply =>
  match supply.next with
  | .ok (name, supply') => (pure name, supply')
  | .error e => (.ofExcept (.error e), supply)

/-- `nextFor xs`: the next names of the supply, one for each variable of a list. -/
def VariableSupply.nextFor (xs : List String) :
    Threaded VariableSupply NormalizationError (List String) :=
  inOrder (xs.map fun _ => issue)

/-- An atom with each variable renamed by its innermost binding, the first one in `bindings`. -/
def Atom.standardize (policy : UnboundPolicy) (bindings : Renaming) (a : Atom) :
    Recorded NormalizationError Atom :=
  a.traverse fun x =>
    match bindings.lookup x with
    | some name => pure name
    | none =>
      match policy with
      | .strict => .ofExcept (.error (.unbound x))
      | .permissive => do
        .record .warn <|
          "Variable '" ++ x ++ "' in " ++ a.text ++ " is not bound by any quantifier"
        return x

/-- A formula with every binding given the next name of the supply. `bindings` are the new names
of the variables bound outside of it, innermost first. -/
def Formula.standardizeIn (policy : UnboundPolicy) (bindings : Renaming) :
    Formula → Threaded VariableSupply NormalizationError Formula
  | .atom a => .ofRecorded (.atom <$> a.standardize policy bindings)
  | .not φ => .not <$> φ.standardizeIn policy bindings
  | .connective op φs =>
    .connective op <$> inOrder (φs.map (standardizeIn policy bindings))
  | .quantified q xs φ => do
    let ys ← VariableSupply.nextFor xs
    .quantified q ys <$> φ.standardizeIn policy (Renaming.ofPlaces xs ys ++ bindings)

/-- **Standardizing.** `φ.standardize settings`: a formula with every binding given a name of its
own that is not free in the formula, and the unbound variables judged by the settings. -/
def Formula.standardize (settings : Settings) (φ : Formula) :
    Recorded NormalizationError Formula :=
  (φ.standardizeIn settings.unbound [] (.avoiding settings.naming φ.freeVariables)).1

end ClausalForm
