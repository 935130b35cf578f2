import ClausalForm.Clause
import ClausalForm.Conjunctive
import ClausalForm.Quantifier.Hoist

/-! # Prenex conjunctive normal form

All quantifiers in front, and a conjunction of disjunctions of literals behind them. The formula is
expected to be standardized and without functions.

* **`Formula.prenex`**: the quantifiers moved to the front, from the leaves to the root.
* **`Formula.prenexForm`**: the same with the matrix in conjunctive normal form. -/

namespace ClausalForm.Formula

/-- The formula with its quantifiers moved to the front, under an enclosing scope if there is one.
`settle` treats the negation of a compound formula. At the root a connective is its own scope. -/
def prenexWith (settle : Option Scope → Formula → Except NormalizationError Formula)
    (parent : Option Scope) : Formula → Except NormalizationError Formula
  | .atom a => .ok (.atom a)
  | .not φ => if φ.isAtom then .ok (.not φ) else settle parent (.not φ)
  | .quantified q xs φ => do
    let ψ ← φ.prenexWith settle (some q.scope)
    return (Formula.quantified q xs ψ).simplify
  | .connective op φs => do
    let ψs ← inOrder (φs.map (prenexWith settle (some op.scope)))
    let ψ ← hoist (some (parent.getD op.scope)) (← combine op ψs)
    return ψ.simplify

/-- `φ.prenex`: the formula with its quantifiers moved to the front. Negations of compound formulas
go through `pushNegations` first, after which no other negation is left to settle. -/
def prenex : Formula → Except NormalizationError Formula :=
  prenexWith (fun parent φ => do
    let ψ ← pushNegations φ
    ψ.prenexWith (fun _ χ => .ok χ) parent) none

/-- `quantifyBlocks bs φ`: a formula under a sequence of quantifiers, the first one outermost, each
built by `quantify`. -/
def quantifyBlocks (bs : List Block) (φ : Formula) : Formula :=
  bs.foldr (fun b ψ => quantify b.quantifier b.bound ψ) φ

/-- **Prenex conjunctive normal form.** `φ.prenexForm`: the quantifiers of `φ.prenex` in front of
the conjunctive normal form of its matrix. -/
def prenexForm (φ : Formula) : Except NormalizationError Formula := do
  let ψ ← φ.prenex
  let χ ← ψ.matrix.conjunctiveForm
  return quantifyBlocks ψ.blocks χ

end ClausalForm.Formula
