import ClausalForm.Quantifier.Count

/-! # Hoisting quantifiers

The quantifiers that are members of a connective are moved out to enclose it. A universal and an
existential one are ordered by the scope that encloses the connective.

* **`Scope`**: the kind of the enclosing node, and the quantifier that goes outermost under it.
* **`Formula.findQuantifier`**: the first quantifier of a list of members, with what stands before
  and after it.
* **`Formula.rescope`**: the quantifiers of one connective moved out.
* **`Formula.hoist`**: members merged and moved out until no quantifier is left below a connective.

Moving fails with a `ScopeConflict` where a variable would be bound that is free in a sibling. Both
functions end because each quantifier is moved out once. -/

namespace ClausalForm

/-- The kind of the node that encloses a formula. -/
inductive Scope where
  | conjunction
  | disjunction
  | universal
  | existential
deriving Repr, DecidableEq, Inhabited

/-- `scope.dominant`: the quantifier that goes outermost when one of each kind is moved out under a
scope. -/
def Scope.dominant : Scope → Quantifier
  | conjunction => .universal
  | universal => .universal
  | disjunction => .existential
  | existential => .existential

/-- `op.scope`: the scope inside a connective. -/
def Connective.scope : Connective → Scope
  | and => .conjunction
  | or => .disjunction

/-- `q.scope`: the scope inside a quantifier. -/
def Quantifier.scope : Quantifier → Scope
  | universal => .universal
  | existential => .existential

namespace Formula

/-- A quantifier among the members of a connective. -/
structure QuantifiedMember where
  quantifier : Quantifier
  bound : List String
  body : Formula

/-- `m.toFormula`: a member as a formula. -/
def QuantifiedMember.toFormula (m : QuantifiedMember) : Formula :=
  .quantified m.quantifier m.bound m.body

/-- `findQuantifier φs`: the first quantifier of a list, with the members before and after it. -/
def findQuantifier : List Formula → Option (List Formula × QuantifiedMember × List Formula)
  | [] => none
  | .quantified q xs φ :: φs => some ([], ⟨q, xs, φ⟩, φs)
  | φ :: φs => (findQuantifier φs).map fun (before, m, after) => (φ :: before, m, after)

/-- `findQuantifier φs` takes one quantifier off: the others stand in the body that it has and in
what comes before and after it. -/
theorem totalCount_findQuantifier {φs before after : List Formula} {m : QuantifiedMember}
    (h : findQuantifier φs = some (before, m, after)) :
    totalCount φs = totalCount before + m.body.quantifierCount + 1 + totalCount after := by
  fun_induction findQuantifier φs generalizing before with
  | case1 => simp at h
  | case2 q xs φ φs =>
    simp only [Option.some.injEq, Prod.mk.injEq] at h
    obtain ⟨rfl, rfl, rfl⟩ := h
    simp [quantifierCount]
  | case3 φ φs _ ih =>
    simp only [Option.map_eq_some_iff, Prod.mk.injEq, Prod.exists] at h
    obtain ⟨before', m', after', found, rfl, rfl, rfl⟩ := h
    have := ih found
    simp only [totalCount_cons]
    omega

/-- `checkSiblings m siblings`: an error if a variable of the member `m` is free in one of its
siblings. -/
def checkSiblings (m : QuantifiedMember) (siblings : List Formula) :
    Except NormalizationError Unit :=
  siblings.forM fun sibling =>
    match captured? m.bound sibling with
    | some x => .error (.scope (.hoistingCaptures m.toFormula x sibling))
    | none => .ok ()

mutual

/-- **Moving quantifiers out of a connective.** `rescope parent φ`: the quantifiers among the
members of a connective, moved out to enclose it. One quantifier is simply moved; of two of
different kinds the one that is `dominant` in the enclosing scope goes outermost; any others should
have been merged before. -/
def rescope (parent : Option Scope) : Formula → Except NormalizationError Formula
  | .connective op φs =>
    match _first : findQuantifier φs with
    | none => .ok (.connective op φs)
    | some (before, m, after) =>
      match _second : findQuantifier after with
      | none => do
        checkSiblings m (before ++ after)
        match _rest : combine op (before ++ m.body :: after) with
        | .error e => .error e
        | .ok ψ =>
          let ψ' ← hoist (some m.quantifier.scope) ψ
          return (quantify m.quantifier m.bound ψ').simplify
      | some (between, n, last) =>
        if m.quantifier ≠ n.quantifier ∧ !last.any isQuantified then
          match parent with
          | none => .error (.ambiguousOrder (.connective op φs))
          | some scope => do
            -- Each is checked against the other as it stands, not against the body that it leaves
            -- behind.
            checkSiblings m (before ++ between ++ n.toFormula :: last)
            checkSiblings n (before ++ m.toFormula :: between ++ last)
            let (outer, inner) := if m.quantifier = scope.dominant then (m, n) else (n, m)
            match _rest : combine op (before ++ m.body :: between ++ n.body :: last) with
            | .error e => .error e
            | .ok ψ =>
              let ψ' ← hoist (some inner.quantifier.scope) ψ
              return (quantify outer.quantifier outer.bound
                (quantify inner.quantifier inner.bound ψ')).simplify
        else
          .error (.scope
            (.unmergedQuantifiers (φs.countP isQuantified) (.connective op φs)))
  | φ => .ok φ
termination_by φ => (φ.quantifierCount, 0)
decreasing_by
  · have := totalCount_findQuantifier _first
    have := quantifierCount_combine _rest
    left
    simp at this ⊢
    omega
  · have := totalCount_findQuantifier _first
    have := totalCount_findQuantifier _second
    have := quantifierCount_combine _rest
    left
    simp at this ⊢
    omega

/-- **Hoisting.** `hoist parent φ`: the quantifiers below each connective merged by
`coalesceMembers` and moved out by `rescope` until none is left there. The quantifiers in a member
of a connective are expected to be at its front. -/
def hoist (parent : Option Scope) : Formula → Except NormalizationError Formula
  | .connective op φs =>
    match _merged : coalesceMembers op φs with
    | .error e => .error e
    | .ok (.connective op' ψs) => rescope parent (.connective op' ψs)
    | .ok (.quantified q xs ψ) => hoist parent (.quantified q xs ψ)
    | .ok ψ => .ok ψ
  | .quantified q xs φ => do
    let ψ ← hoist (some q.scope) φ
    return (Formula.quantified q xs ψ).simplify
  | φ => .ok φ
termination_by φ => (φ.quantifierCount, if φ.isQuantified then 1 else 2)
decreasing_by
  · have := quantifierCount_coalesceMembers _merged
    simp only [quantifierCount_connective, isQuantified] at this ⊢
    rcases Nat.lt_or_eq_of_le this with lt | eq
    · exact .left _ _ lt
    · rw [eq]; exact .right _ (by simp)
  · have := quantifierCount_coalesceMembers _merged
    rw [quantifierCount_connective]
    rcases Nat.lt_or_eq_of_le this with lt | eq
    · exact .left _ _ lt
    · rw [eq]; exact .right _ (by simp [isQuantified])
  · exact .left _ _ (by simp [quantifierCount])

end

end Formula

end ClausalForm
