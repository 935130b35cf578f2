import ClausalForm.Formula.Variables

/-! # Clauses

A formula is in clausal form if it is a sequence of quantifiers over a conjunction of disjunctions
of literals without functions. This file reads its two parts off.

* **`Formula.blocks`**, **`Formula.matrix`**: the leading quantifiers and what they enclose.
* **`Formula.isClausal`**: the test for clausal form.
* **`Formula.clauses`**: the clauses of the matrix, or an error if the formula has none.
* **`Clause.text`**: the printed form `A(x) | ~B(y)`; the empty clause is `⊥`. -/

namespace ClausalForm

/-- A literal: an atom, or its negation if it is not `positive`. -/
structure Literal where
  atom : Atom
  positive : Bool
deriving Repr, BEq, Inhabited

/-- A clause, the disjunction of its `literals`. -/
structure Clause where
  literals : List Literal
deriving Repr, BEq, Inhabited

/-- A quantifier with the variables that it binds, as it stands in front of a matrix. -/
structure Block where
  quantifier : Quantifier
  bound : List String
deriving Repr, DecidableEq, Inhabited

namespace Literal

/-- `ofFormula? φ`: the literal that `φ` is, if it is one. -/
def ofFormula? : Formula → Option Literal
  | .atom a => some ⟨a, true⟩
  | .not (.atom a) => some ⟨a, false⟩
  | _ => none

/-- `l.toFormula`: the formula of a literal. -/
def toFormula (l : Literal) : Formula :=
  if l.positive then .atom l.atom else .not (.atom l.atom)

/-- `l.isFunctionFree`: whether every argument is a variable. -/
def isFunctionFree (l : Literal) : Bool := !l.atom.hasFunctions

/-- The printed form, as `~P(x)`. -/
def text (l : Literal) : String := (if l.positive then "" else "~") ++ l.atom.text

instance : ToString Literal := ⟨text⟩

/-- `ofFormula? φ = some l`: a formula that is read as a literal is the formula of that literal. -/
theorem toFormula_of_ofFormula? {φ : Formula} {l : Literal} (h : ofFormula? φ = some l) :
    l.toFormula = φ := by
  unfold ofFormula? at h
  split at h
  · rw [← Option.some.inj h]; rfl
  · rw [← Option.some.inj h]; rfl
  · simp at h

end Literal

namespace Clause

/-- `c.literalOf? predicate`: the first literal of a predicate in a clause. -/
def literalOf? (c : Clause) (predicate : String) : Option Literal :=
  c.literals.find? fun l => l.atom.predicate = predicate

/-- The printed form, as `A(x) | ~B(y)`. -/
def text (c : Clause) : String :=
  if c.literals.isEmpty then "⊥" else " | ".intercalate (c.literals.map Literal.text)

instance : ToString Clause := ⟨text⟩

end Clause

namespace Formula

/-- `φ.blocks`: the leading quantifiers, outermost first. -/
def blocks : Formula → List Block
  | .quantified q xs φ => ⟨q, xs⟩ :: φ.blocks
  | _ => []

/-- `φ.matrix`: what the leading quantifiers enclose. -/
def matrix : Formula → Formula
  | .quantified _ _ φ => φ.matrix
  | φ => φ

/-- `underBlocks bs φ`: a formula under a sequence of quantifiers, the first one outermost. -/
def underBlocks (bs : List Block) (φ : Formula) : Formula :=
  bs.foldr (fun b ψ => .quantified b.quantifier b.bound ψ) φ

/-- `φ.isFunctionFreeLiteral`: whether a formula is a literal without functions. -/
def isFunctionFreeLiteral (φ : Formula) : Bool :=
  (Literal.ofFormula? φ).any Literal.isFunctionFree

/-- **Clausal form.** `φ.isClausal`: whether a formula is a sequence of quantifiers over a
conjunction of disjunctions of literals without functions. A conjunction or disjunction of one
stands for itself. -/
def isClausal (φ : Formula) : Bool :=
  (φ.matrix.membersOf .and).all fun ψ => (ψ.membersOf .or).all isFunctionFreeLiteral

/-- `φ.clauses`: the clauses of a formula in clausal form, one for each member of its matrix. -/
def clauses (φ : Formula) : Except NormalizationError (List Clause) :=
  if φ.isClausal then
    .ok ((φ.matrix.membersOf .and).map fun ψ =>
      ⟨(ψ.membersOf .or).filterMap Literal.ofFormula?⟩)
  else .error (.malformed (.notClausal φ))

/-- `underBlocks φ.blocks φ.matrix = φ`: the blocks and the matrix make up the formula. -/
@[simp] theorem underBlocks_blocks_matrix (φ : Formula) : underBlocks φ.blocks φ.matrix = φ := by
  fun_induction blocks φ with
  | case1 q xs φ ih => simpa [underBlocks, matrix] using ih
  | case2 φ h => cases φ <;> simp_all [underBlocks, matrix]

section Reading

variable {φ : Formula} {φs : List Formula} {cs : List Clause}

/-- A literal without functions is read as one. -/
theorem isFunctionFreeLiteral_iff : φ.isFunctionFreeLiteral = true ↔
    ∃ l, Literal.ofFormula? φ = some l ∧ l.isFunctionFree = true := by
  rw [isFunctionFreeLiteral, Option.any_eq_true]

/-- No literal is dropped when literals are read: their formulas are what they were read from. -/
theorem map_toFormula_filterMap (literals : ∀ φ ∈ φs, φ.isFunctionFreeLiteral = true) :
    (φs.filterMap Literal.ofFormula?).map Literal.toFormula = φs := by
  induction φs with
  | nil => rfl
  | cons φ φs ih =>
    rw [List.forall_mem_cons] at literals
    obtain ⟨l, read, -⟩ := isFunctionFreeLiteral_iff.1 literals.1
    rw [List.filterMap_cons_some read, List.map_cons, Literal.toFormula_of_ofFormula? read,
      ih literals.2]

/-- `φ.isClausal` as a statement about the matrix: each member of each of its members is a literal
without functions. -/
theorem isClausal_iff : φ.isClausal = true ↔
    ∀ ψ ∈ φ.matrix.membersOf .and, ∀ χ ∈ ψ.membersOf .or, χ.isFunctionFreeLiteral = true := by
  simp only [isClausal, List.all_eq_true]

/-- `φ.clauses = .ok cs`: the clauses of a formula in clausal form are read from the members of its
matrix. -/
theorem clauses_eq_ok_iff : φ.clauses = .ok cs ↔ φ.isClausal = true ∧
    cs = (φ.matrix.membersOf .and).map fun ψ =>
      ⟨(ψ.membersOf .or).filterMap Literal.ofFormula?⟩ := by
  unfold clauses
  split
  · next clausal => rw [and_iff_right clausal, Except.ok.injEq, eq_comm]
  · next other =>
    refine iff_of_false (fun same => ?_) fun h => other h.1
    cases same

/-- `φ.clauses` is there exactly if `φ` is in clausal form. -/
theorem exists_clauses_iff : (∃ cs, φ.clauses = .ok cs) ↔ φ.isClausal = true := by
  simp only [clauses_eq_ok_iff, exists_and_left, exists_eq, and_true]

end Reading

end Formula

end ClausalForm
