import ClausalForm.Clause
import ClausalForm.Log
import ClausalForm.Naming.Fresh
import ClausalForm.Text.Quoted

/-! # Function-free formulas

Every application of a function is replaced by a fresh variable together with an atom that says
whose value the variable is: `f(t)` by `v` with the atom `f(t,v)`. If the applications in an
occurrence of a literal `L` have the definitions `D`, the occurrence becomes `∀(v₁,…)[(~D | L)]`:
whenever the variables are the values of the functions, the literal holds.

* **`Definition`**: a fresh variable as the value of a function at some arguments.
* **`Term.flatten`**: a term without applications, and the definitions of its fresh variables,
  arguments before the function that is applied to them.
* **`Atom.eliminate`**: an occurrence of an atom or of its negation, rewritten.
* **`Formula.eliminateFunctions`**: every such occurrence rewritten, from left to right. -/

namespace ClausalForm

/-- The variable `value` is the value of a function at the arguments. -/
structure Definition where
  function : String
  args : List Term
  value : String
deriving Repr, BEq, Inhabited

/-- `d.toFormula`: a definition as an atom. The function becomes a predicate with the value as last
argument, so that `f(t) = v` is written `f(t,v)`. -/
def Definition.toFormula (d : Definition) : Formula := .atom ⟨d.function, d.args ++ [.var d.value]⟩

/-- `t.flatten`: a term with every application replaced by a fresh variable, and the definitions of
these. Those of the arguments come before that of the function applied to them. -/
def Term.flatten : Term → StateM FreshSupply (Term × List Definition)
  | .var x => pure (.var x, [])
  | .app g args => do
    let flat ← inOrder (args.map flatten)
    let value ← FreshSupply.next g
    return (.var value, flat.flatMap Prod.snd ++ [⟨g, flat.map Prod.fst, value⟩])

/-- `Definition.conjunction ds`: the conjunction of definitions; a single one stands for itself. -/
def Definition.conjunction : List Definition → Formula
  | [d] => d.toFormula
  | ds => .connective .and (ds.map toFormula)

/-- `a.eliminate positive`: an occurrence of an atom, or of its negation, without functions:
`∀(v₁,…)[(~D | L)]` for the definitions `D` of the values `v₁,…` and the literal `L` of them. -/
def Atom.eliminate (a : Atom) (positive : Bool) :
    Threaded FreshSupply NormalizationError Formula := do
  let flat ← .ofState (inOrder (a.args.map Term.flatten))
  let definitions := flat.flatMap Prod.snd
  let values := definitions.map Definition.value
  let literal := (⟨⟨a.predicate, flat.map Prod.fst⟩, positive⟩ : Literal).toFormula
  .ofRecorded <| .record .debug <|
    "Eliminated functions of " ++ a.text ++ " with fresh variables " ++ Text.quotedList values
  return .quantified .universal values
    (.connective .or [.not (Definition.conjunction definitions), literal])

/-- **Elimination of functions.** `φ.eliminateFunctions`: every occurrence of an atom with functions
rewritten by `Atom.eliminate`, from left to right. Connectives are built again on the way and so
flattened. -/
def Formula.eliminateFunctions : Formula → Threaded FreshSupply NormalizationError Formula
  | .atom a => if a.hasFunctions then a.eliminate true else pure (.atom a)
  | .not (.atom a) => if a.hasFunctions then a.eliminate false else pure (.not (.atom a))
  | .not φ => .not <$> φ.eliminateFunctions
  | .connective op φs => do
    let ψs ← inOrder (φs.map eliminateFunctions)
    .ofRecorded (.ofExcept (combine op ψs))
  | .quantified q xs φ => .quantified q xs <$> φ.eliminateFunctions

end ClausalForm
