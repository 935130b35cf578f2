import ClausalForm.Formula.Variables

/-! # Well-formed formulas

A formula is well-formed if every predicate has a name, every connective has at least two members
and none of its own kind, and every quantifier binds at least one variable, its variables being
distinct non-empty names. `Formula.validate` checks this from the root to the leaves and reports
the first defect.

`Formula.isLocallyNormal` is the weaker test of one node for conjunctive normal form. -/

namespace ClausalForm.Formula

/-- **Well-formedness.** `φ.validate` reports the first defect of a formula: a predicate without a
name, a connective with fewer than two members or with a member of its own kind, a quantifier
without variables, with a repeated one or with an unnamed one. -/
def validate : Formula → Except NormalizationError Unit
  | .atom a =>
    if a.predicate = "" then .error (.malformed .unnamedPredicate) else .ok ()
  | .not φ => φ.validate
  | .connective op φs =>
    if φs.length < 2 then .error (.malformed (.fewMembers op φs.length))
    else if φs.any (isConnective op) then
      .error (.malformed (.nestedConnective op (.connective op φs)))
    else do
      let _ ← inOrder (φs.map validate)
      return ()
  | .quantified q xs φ =>
    if xs = [] then .error (.malformed (.noVariables (.quantified q xs φ)))
    else if distinct xs ≠ xs ∨ "" ∈ xs then
      .error (.malformed (.variablesNotDistinct (.quantified q xs φ)))
    else φ.validate

/-- `φ.isLocallyNormal`: whether the root of a formula is in conjunctive normal form, given that its
members are: a negation stands at an atom, a conjunction has no quantifier or conjunction as a
member, and a disjunction no quantifier or connective. A quantifier is judged by its body. -/
def isLocallyNormal : Formula → Bool
  | .atom _ => true
  | .not φ => φ.isAtom
  | .connective .and φs => φs.all fun φ => !φ.isQuantified && !φ.isConnective .and
  | .connective .or φs =>
    φs.all fun φ => !φ.isQuantified && !φ.isConnective .and && !φ.isConnective .or
  | .quantified _ _ φ => φ.isLocallyNormal

end ClausalForm.Formula
