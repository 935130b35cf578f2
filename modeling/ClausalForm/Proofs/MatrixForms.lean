import ClausalForm.Proofs.KeptNormalForms

/-! # Conjunctive normal forms of matrices

A matrix is a formula without quantifiers. What it says depends on the truth of its atoms alone: the
atoms are true or false as one likes, since terms may stand for themselves.

* **`Formula.TruthAt`**: truth of a matrix, given the truth of the atoms.
* **`Formula.holds_ofTerms`**: the structure of terms in which the atoms are as given.
* **`Formula.IsMatrix`**: connectives and negations of atoms, nested in any way.
* **`Formula.IsConjunctiveForm`**: a literal, a clause or a conjunction of clauses. -/

namespace ClausalForm

/-! ## Valuations of atoms -/

/-- `Structure.ofTerms w`: the structure of terms, each of which stands for itself, with the atoms
of `w` true. -/
def Structure.ofTerms (w : Atom → Prop) : Structure Term where
  relation p ts := w ⟨p, ts⟩
  function := .app

/-- `t.value (.ofTerms w) .var = t`: a term stands for itself. -/
theorem Term.value_ofTerms (w : Atom → Prop) (t : Term) : t.value (.ofTerms w) .var = t := by
  match t with
  | .var x => rw [value]
  | .app f ts =>
    have each : ts.map (value (.ofTerms w) .var) = ts.map id :=
      List.map_congr_left fun t _ => value_ofTerms w t
    rw [value, each, List.map_id]
    rfl

/-- `a.Holds (.ofTerms w) .var ↔ w a`: an atom is true as given. -/
theorem Atom.holds_ofTerms (w : Atom → Prop) (a : Atom) : a.Holds (.ofTerms w) .var ↔ w a := by
  have each : a.args.map (Term.value (.ofTerms w) .var) = a.args.map id :=
    List.map_congr_left fun t _ => t.value_ofTerms w
  rw [Holds, each, List.map_id]
  rfl

namespace Formula

variable {leaves : Leaves} {φ : Formula} {φs : List Formula} {css : Conjuncts}

/-- `φ.TruthAt w`: the truth of a matrix, given the truth of the atoms. A quantifier is passed
over. -/
def TruthAt (w : Atom → Prop) : Formula → Prop
  | .atom a => w a
  | .not φ => ¬ φ.TruthAt w
  | .connective op φs => op.Joins (φs.map fun φ => φ.TruthAt w)
  | .quantified _ _ φ => φ.TruthAt w

/-- `φ.Holds (.ofTerms w) .var ↔ φ.TruthAt w`: a formula without quantifiers is true in the
structure of terms as it is for the atoms. -/
theorem holds_ofTerms (w : Atom → Prop) (none : φ.quantifierCount = 0) :
    φ.Holds (.ofTerms w) .var ↔ φ.TruthAt w := by
  induction φ using induction with
  | atom a => rw [Holds, TruthAt, a.holds_ofTerms]
  | not φ ih => rw [Holds, TruthAt, ih none]
  | connective op φs ih =>
    rw [quantifierCount_connective, totalCount_eq_zero_iff] at none
    have same : (φs.map fun φ => φ.Holds (.ofTerms w) .var) = φs.map fun φ => φ.TruthAt w :=
      List.map_congr_left fun φ mem => propext (ih φ mem (none φ mem))
    rw [Holds, TruthAt, same]
  | quantified => simp [quantifierCount] at none

/-! ## Matrices and their forms -/

/-- **Matrices.** `φ.IsMatrix`: a formula without quantifiers in which every connective has a
member. Connectives may be nested in their own kind or have a single member, and any formula may be
negated. -/
inductive IsMatrix : Formula → Prop
  | atom (a : Atom) : IsMatrix (.atom a)
  | not {φ : Formula} (body : IsMatrix φ) : IsMatrix (.not φ)
  | connective {op : Connective} {φs : List Formula} (some : φs ≠ [])
      (members : ∀ φ ∈ φs, IsMatrix φ) : IsMatrix (.connective op φs)

/-- `φ.IsClause`: a literal, or a disjunction of at least two. -/
inductive IsClause : Formula → Prop
  | literal {φ : Formula} (literal : φ.isLiteral = true) : IsClause φ
  | disjunction {φs : List Formula} (two : 2 ≤ φs.length)
      (literals : ∀ φ ∈ φs, φ.isLiteral = true) : IsClause (.connective .or φs)

/-- `φ.IsConjunctiveForm`: a clause, or a conjunction of at least two. -/
inductive IsConjunctiveForm : Formula → Prop
  | clause {φ : Formula} (clause : IsClause φ) : IsConjunctiveForm φ
  | conjunction {φs : List Formula} (two : 2 ≤ φs.length) (clauses : ∀ φ ∈ φs, IsClause φ) :
      IsConjunctiveForm (.connective .and φs)

/-- A matrix has no quantifiers. -/
theorem IsMatrix.quantifierCount_eq_zero (h : φ.IsMatrix) : φ.quantifierCount = 0 := by
  induction h with
  | atom a => rfl
  | not _ ih => rw [quantifierCount, ih]
  | connective _ _ ih =>
    rw [quantifierCount_connective, totalCount_eq_zero_iff]
    exact ih

/-- `φ.Populated`: a matrix has no empty connectives, and its atoms may be any. -/
theorem IsMatrix.populated (h : φ.IsMatrix) : φ.Populated (.naming fun _ => True) := by
  induction h with
  | atom a => exact .atom ⟨trivial, fun _ _ => trivial⟩
  | not _ ih => exact .not (.inr trivial) ih
  | connective some _ ih => exact .connective some ih

/-- `(joined .or φs).IsClause`: joined literals are a clause. -/
theorem isClause_joined (some : φs ≠ []) (literals : ∀ φ ∈ φs, φ.isLiteral = true) :
    (joined .or φs).IsClause := by
  unfold joined
  split
  · next φ => exact .literal (literals φ List.mem_cons_self)
  · next several => exact .disjunction (two_le_length some several) literals

/-- `(ofConjuncts css).IsConjunctiveForm`: the form of proper conjuncts is a clause or a conjunction
of several. -/
theorem isConjunctiveForm_ofConjuncts (proper : Conjuncts.IsProper leaves css) :
    (ofConjuncts css).IsConjunctiveForm := by
  have clauses : ∀ φ ∈ css.map (joined .or), φ.IsClause :=
    List.forall_mem_map.2 fun c mem =>
      isClause_joined (proper.clause c mem) fun φ hφ => (proper.literal c mem φ hφ).1
  have some : css.map (joined .or) ≠ [] := by
    rw [ne_eq, List.map_eq_nil_iff]
    exact proper.some
  unfold ofConjuncts joined
  split
  · next φ form => exact .clause (clauses φ (form ▸ List.mem_cons_self))
  · next several => exact .conjunction (two_le_length some several) clauses

end Formula

end ClausalForm
