import ClausalForm.Formula.Basic

/-! # Errors of the rewriting passes

Why a pass may refuse a formula. Each constructor is a cause and carries the formulas and names
that it speaks of; the wording stands in one place, `NormalizationError.message`. -/

namespace ClausalForm

/-- What is wrong with the shape of a formula. -/
inductive Malformation where
  /-- A predicate has no name. -/
  | unnamedPredicate
  /-- A connective was to be built from no members. -/
  | noMembers (op : Connective)
  /-- A connective has fewer than two members. -/
  | fewMembers (op : Connective) (count : Nat)
  /-- A connective has a member of its own kind. -/
  | nestedConnective (op : Connective) (φ : Formula)
  /-- A quantifier binds nothing. -/
  | noVariables (φ : Formula)
  /-- A quantifier binds a name twice, or the empty name. -/
  | variablesNotDistinct (φ : Formula)
  /-- Negation pushing ran out of finished subformulas. -/
  | lostSubformula
  /-- A quantifier stands inside the matrix. -/
  | quantifierInMatrix (φ : Formula)
  /-- A formula without a clausal reading. -/
  | notClausal (φ : Formula)
deriving Repr, Inhabited

/-- A formula of another kind than an operation works on. -/
inductive Mismatch where
  /-- A quantifier was expected. -/
  | notQuantified (φ : Formula)
  /-- Two quantifiers of different kinds were to be merged. -/
  | differentQuantifiers (φ ψ : Formula)
  /-- A formula was to be distributed over something that is no connective. -/
  | notConnective (φ ψ : Formula)
deriving Repr, Inhabited

/-- A move of a quantifier that would change what a variable refers to. -/
inductive ScopeConflict where
  /-- Merging two quantifiers would bind a free variable. -/
  | coalescingCaptures (φ ψ : Formula) (x : String)
  /-- A variable would be renamed to one that is bound inside the body. -/
  | renamingCaptured (x : String) (body : Formula)
  /-- Two quantifiers to be joined bind the same variable. -/
  | boundTwice (x : String) (q : Quantifier)
  /-- Joining quantifiers would bind a free variable. -/
  | joiningCaptures (q : Quantifier) (x : String)
  /-- More quantifiers stand below a connective than can be ordered. -/
  | unmergedQuantifiers (count : Nat) (φ : Formula)
  /-- Moving a quantifier outwards would bind a variable that is free beside it. -/
  | hoistingCaptures (φ : Formula) (x : String) (sibling : Formula)
deriving Repr, Inhabited

/-- Why a rewriting pass refused a formula. -/
inductive NormalizationError where
  | malformed (defect : Malformation)
  | mismatch (found : Mismatch)
  /-- A universal and an existential quantifier have no order without an enclosing scope. -/
  | ambiguousOrder (φ : Formula)
  /-- All names that may be given to bound variables are used up. -/
  | tooManyVariables (limit : Nat)
  /-- A variable has no enclosing quantifier. -/
  | unbound (x : String)
  | scope (conflict : ScopeConflict)
deriving Repr, Inhabited

/-- `defect.message`: what is wrong with the shape of a formula, in words. -/
def Malformation.message : Malformation → String
  | unnamedPredicate => "predicate with an empty name"
  | noMembers op => op.name ++ " connective without terms"
  | fewMembers op count => op.name ++ " connective with " ++ toString count ++ " term(s)"
  | nestedConnective op φ => op.name ++ " connective directly nested in itself: " ++ φ.text
  | noVariables φ => "quantifier without variables: " ++ φ.text
  | variablesNotDistinct φ => "quantifier variables must be distinct names: " ++ φ.text
  | lostSubformula => "negation pushing lost track of a subterm"
  | quantifierInMatrix φ => "quantifier " ++ φ.text ++ " inside the matrix"
  | notClausal φ =>
    "not in function-free prenex conjunctive normal form: " ++ φ.text

/-- `found.message`: what kind of formula was expected, in words. -/
def Mismatch.message : Mismatch → String
  | notQuantified φ => "expected a quantifier, found " ++ φ.text
  | differentQuantifiers φ ψ => "cannot coalesce " ++ φ.text ++ " with " ++ ψ.text
  | notConnective φ ψ =>
    "cannot distribute " ++ φ.text ++ " over " ++ ψ.text ++ ", which is not a connective"

/-- `conflict.message`: which variable would change its meaning, in words. -/
def ScopeConflict.message : ScopeConflict → String
  | coalescingCaptures φ ψ x =>
    "coalescing " ++ φ.text ++ " with " ++ ψ.text ++ " would capture '" ++ x ++ "'"
  | renamingCaptured x body =>
    "renaming onto '" ++ x ++ "' would be captured inside " ++ body.text
  | boundTwice x q =>
    "variable '" ++ x ++ "' is bound by more than one " ++ q.sign ++ " child"
  | joiningCaptures q x =>
    "merging the " ++ q.sign ++ " children would capture '" ++ x ++ "'"
  | unmergedQuantifiers count φ =>
    toString count ++ " quantifier children left after coalescing in " ++ φ.text
  | hoistingCaptures φ x sibling =>
    "hoisting " ++ φ.text ++ " would capture '" ++ x ++ "' in " ++ sibling.text

/-- `e.message`: the message of an error, the kind of the error first. -/
def NormalizationError.message : NormalizationError → String
  | malformed defect => "Malformed term: " ++ defect.message
  | mismatch found => "Type mismatch: " ++ found.message
  | ambiguousOrder φ =>
    "Ambiguous scope order: ordering the quantifiers of " ++ φ.text ++ " needs the enclosing scope"
  | tooManyVariables limit =>
    "Too many variables: the " ++ toString limit ++ "-name budget is exhausted"
  | unbound x => "Unbound variable '" ++ x ++ "'"
  | scope conflict => "Invalid scope state: " ++ conflict.message

instance : ToString NormalizationError := ⟨NormalizationError.message⟩

end ClausalForm
