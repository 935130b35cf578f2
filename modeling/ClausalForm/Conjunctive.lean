import ClausalForm.Negation

/-! # Conjunctive normal form

A formula without quantifiers as a conjunction of disjunctions of literals.

* **`Formula.distribute`**: one formula distributed over the members of a connective.
* **`Formula.conjuncts`**: the conjuncts of the form, each the list of its disjuncts.
* **`Formula.distributeDisjuncts`**: the conjuncts of a disjunction, by distributing all other
  disjuncts over its first conjunction, again and again; each time one conjunction less is left.
* **`Formula.conjunctiveForm`**: the form as a formula.

A quantifier may enclose the formula; written below a connective it is an error. -/

namespace ClausalForm.Formula

/-- `φ` distributed over the members of `ψ`: over a conjunction `(A & B)` the result is
`((φ | A) & (φ | B))`, over a disjunction the dual. -/
def distribute (φ ψ : Formula) : Except NormalizationError Formula :=
  match ψ with
  | .connective op χs => do
    let distributed ← inOrder (χs.map fun χ => combine op.dual [φ, χ])
    combine op distributed
  | _ => .error (.mismatch (.notConnective φ ψ))

/-- `joined op φs`: the connective of a list of members; a single one stands for itself. -/
def joined (op : Connective) : List Formula → Formula
  | [φ] => φ
  | φs => .connective op φs

/-- `ofConjuncts conjuncts`: the formula with given conjuncts, each a list of disjuncts. -/
def ofConjuncts (conjuncts : List (List Formula)) : Formula :=
  joined .and (conjuncts.map (joined .or))

/-! ## Disjunctions -/

/-- A disjunct in conjunctive normal form: a formula that is no connective, or a conjunction of
several conjuncts. -/
inductive Disjunct where
  | simple (φ : Formula)
  | conjunction (conjuncts : List (List Formula))

/-- `disjunctsOf conjuncts`: what a formula with these conjuncts contributes to a disjunction. A
single conjunct contributes its own disjuncts, several stay together as one
`Disjunct.conjunction`. -/
def disjunctsOf : List (List Formula) → List Disjunct
  | [disjuncts] => disjuncts.map .simple
  | conjuncts => [.conjunction conjuncts]

/-- `d.isConjunction`: whether a disjunct is a conjunction. -/
def Disjunct.isConjunction : Disjunct → Bool
  | simple _ => false
  | conjunction _ => true

/-- `d.parts`: the formulas that a disjunct is built of, from left to right. -/
def Disjunct.parts : Disjunct → List Formula
  | simple φ => [φ]
  | conjunction conjuncts => conjuncts.flatten

/-- `takeConjunction ds`: the first conjunction of a list of disjuncts, by its conjuncts, and all
other disjuncts in order. -/
def takeConjunction : List Disjunct → Option (List (List Formula) × List Disjunct)
  | [] => none
  | .conjunction conjuncts :: ds => some (conjuncts, ds)
  | .simple φ :: ds =>
    (takeConjunction ds).map fun (conjuncts, others) => (conjuncts, .simple φ :: others)

/-- `takeConjunction` leaves one conjunction less. -/
theorem countP_takeConjunction {ds others : List Disjunct} {conjuncts : List (List Formula)}
    (h : takeConjunction ds = some (conjuncts, others)) :
    ds.countP Disjunct.isConjunction = others.countP Disjunct.isConjunction + 1 := by
  fun_induction takeConjunction ds generalizing others with
  | case1 => simp at h
  | case2 conjuncts' ds =>
    simp only [Option.some.injEq, Prod.mk.injEq] at h
    rw [h.2, List.countP_cons_of_pos rfl]
  | case3 φ ds ih =>
    simp only [Option.map_eq_some_iff, Prod.mk.injEq, Prod.exists] at h
    obtain ⟨conjuncts', others', found, rfl, rfl⟩ := h
    rw [List.countP_cons_of_neg (by simp [Disjunct.isConjunction]),
      List.countP_cons_of_neg (by simp [Disjunct.isConjunction]), ih found]

/-- `refuseQuantifiers ds`: an error at the first quantifier among the `Disjunct.parts` of the
disjuncts. -/
def refuseQuantifiers (ds : List Disjunct) : Except NormalizationError Unit :=
  match (ds.flatMap Disjunct.parts).find? isQuantified with
  | some φ => .error (.malformed (.quantifierInMatrix φ))
  | none => .ok ()

/-- `distributed others conjunct = others.reverse ++ conjunct.map .simple`: the disjuncts that one
conjunct of a distributed conjunction becomes. The other disjuncts come first, the last one of them
in front, since each is put before those that are there. -/
def distributed (others : List Disjunct) (conjunct : List Formula) : List Disjunct :=
  others.reverse ++ conjunct.map .simple

/-- `distributed others conjunct` has the conjunctions of `others`: distributing brings in no
further one. -/
theorem countP_distributed (others : List Disjunct) (conjunct : List Formula) :
    (distributed others conjunct).countP Disjunct.isConjunction =
      others.countP Disjunct.isConjunction := by
  have : (conjunct.map Disjunct.simple).countP Disjunct.isConjunction = 0 := by
    simp [List.countP_eq_zero, Disjunct.isConjunction]
  simp [distributed, this]

/-- **Distribution over a disjunction.** `distributeDisjuncts ds`: the conjuncts of a disjunction.
Its first conjunction is distributed over: each of its conjuncts is put together with all other
disjuncts, as `distributed` says, and the disjunction that this gives is treated in the same way.
There is one conjunction less in it, so this ends. -/
def distributeDisjuncts (ds : List Disjunct) : Except NormalizationError (List (List Formula)) :=
  match _found : takeConjunction ds with
  | none => .ok [ds.flatMap Disjunct.parts]
  | some (conjuncts, []) => .ok conjuncts
  | some (conjuncts, other :: others) => do
    let parts ← inOrder <| conjuncts.map fun conjunct => do
      refuseQuantifiers (distributed (other :: others) conjunct)
      distributeDisjuncts (distributed (other :: others) conjunct)
    return parts.flatten
termination_by ds.countP Disjunct.isConjunction
decreasing_by
  rw [countP_distributed, countP_takeConjunction _found]
  omega

/-! ## All formulas -/

/-- `nonemptyMembers op as`: a non-empty list of members, and the error `noMembers op` otherwise. -/
def nonemptyMembers {α : Type} (op : Connective) :
    List α → Except NormalizationError (List α)
  | [] => .error (.malformed (.noMembers op))
  | as => .ok as

/-- The conjuncts of a formula in conjunctive normal form, each as the list of its disjuncts.
`settle` gives those of the negation of a compound formula. -/
def conjunctsWith (settle : Formula → Except NormalizationError (List (List Formula))) :
    Formula → Except NormalizationError (List (List Formula))
  | .atom a => .ok [[.atom a]]
  | .not φ => if φ.isAtom then .ok [[.not φ]] else settle (.not φ)
  | .quantified q xs φ => do
    let conjuncts ← φ.conjunctsWith settle
    return [[.quantified q xs (ofConjuncts conjuncts)]]
  | .connective op φs => do
    let parts ← inOrder <| φs.map fun φ =>
      if φ.isQuantified then .error (.malformed (.quantifierInMatrix φ))
      else φ.conjunctsWith settle
    match op with
    | .and => nonemptyMembers .and parts.flatten
    | .or => do
      let disjuncts ← nonemptyMembers .or (parts.flatMap disjunctsOf)
      distributeDisjuncts disjuncts

/-- `φ.conjuncts`: the conjuncts of a formula in conjunctive normal form. Negations of compound
formulas go through `pushNegations` first, after which no other negation is left to settle. -/
def conjuncts : Formula → Except NormalizationError (List (List Formula)) :=
  conjunctsWith fun φ => do
    let ψ ← pushNegations φ
    ψ.conjunctsWith fun χ => .ok [[χ]]

/-- **Conjunctive normal form.** `φ.conjunctiveForm`: the formula of the conjuncts of `φ`. -/
def conjunctiveForm (φ : Formula) : Except NormalizationError Formula :=
  ofConjuncts <$> φ.conjuncts

end ClausalForm.Formula
