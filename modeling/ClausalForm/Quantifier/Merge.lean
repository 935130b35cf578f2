import ClausalForm.Formula.Variables

/-! # Merging quantifiers

Quantifiers of one kind are merged when they follow each other or stand side by side in a
connective. None of the operations changes the meaning of a formula; where merging would bind a
variable that is free, or rename a variable into the scope of another quantifier, they fail with a
`ScopeConflict`.

* **`Formula.simplify`**: chains of directly nested quantifiers of one kind become one.
* **`Formula.coalesce`**: two quantifiers of one kind over the connective that they distribute
  over: `∀(x)[A(x)]` and `∀(y,z)[B(y,z)]` become `∀(y,z)[(A(y) & B(y,z))]`.
* **`Formula.concatenate`**: quantifiers under the other connective; all variables are kept.
* **`Formula.coalesceMembers`**: both for all members of a connective. -/

namespace ClausalForm.Formula

/-! ## Nested quantifiers -/

/-- `absorb q xs φ`: a quantifier in front of a body; the body's own quantifier is absorbed if it is
of the same kind. -/
def absorb (q : Quantifier) (xs : List String) : Formula → Formula
  | .quantified r ys φ =>
    if r = q then .quantified q (distinct (xs ++ ys)) φ
    else .quantified q (distinct xs) (.quantified r ys φ)
  | φ => .quantified q (distinct xs) φ

/-- **Chains of quantifiers.** `φ.simplify`: every chain of directly nested quantifiers of one kind
as one quantifier over the variables of all of them, outer ones first, each once. -/
def simplify : Formula → Formula
  | .atom a => .atom a
  | .not φ => .not φ.simplify
  | .connective op φs => .connective op (φs.map simplify)
  | .quantified q xs φ => absorb q xs φ.simplify

/-! ## Two quantifiers side by side -/

/-- The first free variable of a formula that a quantifier over `xs` would bind. -/
def captured? (xs : List String) (φ : Formula) : Option String :=
  φ.freeVariables.find? (xs.contains ·)

/-- The formula with the variables `xs` renamed to those at the same places of `ys`. None of the
names in `ys` may be bound in the formula. -/
def renameOnto (φ : Formula) (xs ys : List String) : Except NormalizationError Formula :=
  match ys.find? (φ.boundVariables.contains ·) with
  | some y => .error (.scope (.renamingCaptured y φ))
  | none => .ok (φ.rename (.ofPlaces xs ys))

/-- `align xs ys φ ψ`: the variables of a quantifier that is to bind those of two bodies, with the
bodies as they stand below it. The shorter list is renamed onto the longer one; lists of one length
are joined. -/
def align (xs ys : List String) (φ ψ : Formula) :
    Except NormalizationError (List String × Formula × Formula) :=
  if xs.length < ys.length then do return (ys, ← φ.renameOnto xs ys, ψ)
  else if ys.length < xs.length then do return (xs, φ, ← ψ.renameOnto ys xs)
  else return (distinct (xs ++ ys), φ, ψ)

/-- **Merging two quantifiers.** `coalesce φ ψ`: two quantifiers of one kind as one, over the
connective that it distributes over. It is refused if one of its variables is free in `φ` or in
`ψ`. -/
def coalesce (φ ψ : Formula) : Except NormalizationError Formula :=
  match φ, ψ with
  | .quantified q xs φ', .quantified r ys ψ' =>
    if q = r then do
      let (zs, φ'', ψ'') ← align xs ys φ' ψ'
      match [φ, ψ].findSome? (captured? zs) with
      | some x => .error (.scope (.coalescingCaptures φ ψ x))
      | none =>
        let body ← combine q.distributesOver [φ'', ψ'']
        return quantify q zs body
    else .error (.mismatch (.differentQuantifiers φ ψ))
  | .quantified .., χ => .error (.mismatch (.notQuantified χ))
  | χ, _ => .error (.mismatch (.notQuantified χ))

/-! ## The quantifiers of a connective -/

/-- The first element of a list that stands in it, or among `seen`, before. -/
def firstRepeated? (seen : List String) : List String → Option String
  | [] => none
  | x :: xs => if x ∈ seen then some x else firstRepeated? (x :: seen) xs

/-- `concatenate q op φs`: quantifiers of one kind below a connective as one quantifier over all
their variables, which have to be distinct. -/
def concatenate (q : Quantifier) (op : Connective) (φs : List Formula) :
    Except NormalizationError Formula :=
  let xs := φs.flatMap fun φ => φ.boundHere?.getD []
  match firstRepeated? [] xs with
  | some x => .error (.scope (.boundTwice x q))
  | none =>
    match φs.findSome? (captured? xs) with
    | some x => .error (.scope (.joiningCaptures q x))
    | none => quantify q xs <$> combine op (φs.filterMap body?)

/-- Whether a formula is a quantifier of kind `q`. -/
def isQuantifiedBy (q : Quantifier) (φ : Formula) : Bool := φ.quantifier? = some q

/-- The quantifier that the members of kind `q` of a connective are merged into, if there are two
or more. -/
def mergedMember (op : Connective) (φs : List Formula) (q : Quantifier) :
    Except NormalizationError (Option Formula) :=
  match φs.filter (isQuantifiedBy q) with
  | φ :: ψ :: rest =>
    if q = op.distributing then some <$> (ψ :: rest).foldlM coalesce φ
    else some <$> concatenate q op (φ :: ψ :: rest)
  | _ => .ok none

/-- The members that are no quantifiers of kind `q`. -/
def withoutKind (q : Quantifier) (φs : List Formula) : List Formula :=
  φs.filter fun φ => !φ.isQuantifiedBy q

/-- `placeMerged merged φs`: the list `φs` in which the members of each kind `q` with
`merged q = some ψ` are replaced by the one formula `ψ`, at the place of the first of them. All
other members stay where they are. -/
def placeMerged (merged : Quantifier → Option Formula) : List Formula → List Formula
  | [] => []
  | φ :: φs =>
    match φ.quantifier? with
    | none => φ :: placeMerged merged φs
    | some q =>
      match merged q with
      | none => φ :: placeMerged merged φs
      | some ψ => ψ :: placeMerged merged (withoutKind q φs)
termination_by φs => φs.length
decreasing_by
  · simp
  · simp
  · exact Nat.lt_succ_of_le (List.length_filter_le ..)

/-- The connective of `φs` with the quantifiers of each kind merged into one, which takes the place
of the first of them. If no kind has two members, the connective is left as it is. -/
def coalesceMembers (op : Connective) (φs : List Formula) : Except NormalizationError Formula := do
  let coalesced ← mergedMember op φs op.distributing
  let concatenated ← mergedMember op φs op.distributing.dual
  if coalesced.isNone && concatenated.isNone then
    return .connective op φs
  else
    combine op (placeMerged (fun q => if q = op.distributing then coalesced else concatenated) φs)

/-- `φ.coalesceConnective`: the formula with the quantifiers among its members merged, if it is a
connective. -/
def coalesceConnective : Formula → Except NormalizationError Formula
  | .connective op φs => coalesceMembers op φs
  | φ => .ok φ

end ClausalForm.Formula
