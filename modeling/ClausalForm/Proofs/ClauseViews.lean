import ClausalForm.Report
import ClausalForm.Proofs.Prenexing

/-! # Formulas from their blocks and clauses

A formula in clausal form is shown as its blocks and its clauses, in a report with the arguments of
the literals as text. Nothing is lost on the way: the formula can be built from them again.

* **`Clause.toFormula`**, **`Formula.ofClauses`**: the disjunction of the literals of a clause, and
  the conjunction of clauses.
* **`Formula.ofClauses_of_clauses`**: the clauses of a formula build its matrix.
* **`ClauseReport.toClause`**: the clause that a report is about.
* **`Formula.ofClauses_of_report`**: what is reported builds the formula.
* **`Formula.determined_by_clauses`**: the views of a formula in clausal form, and what they say
  about it. -/

namespace ClausalForm

/-! ## Formulas of clauses -/

/-- `c.toFormula`: the disjunction of the literals of the clause. -/
def Clause.toFormula (c : Clause) : Except NormalizationError Formula :=
  Formula.combine .or (c.literals.map Literal.toFormula)

/-- `c.literals ≠ []` if `c.toFormula` succeeds. -/
theorem Clause.literals_ne_nil {c : Clause} {φ : Formula} (built : c.toFormula = .ok φ) :
    c.literals ≠ [] := by
  intro none
  rw [Clause.toFormula, none] at built
  cases built

namespace Formula

variable {leaves : Leaves} {φ : Formula} {cs : List Clause}

/-- `ofClauses cs`: the conjunction of the formulas of the clauses. -/
def ofClauses (cs : List Clause) : Except NormalizationError Formula := do
  combine .and (← inOrder (cs.map Clause.toFormula))

/-- `combine op (φ.membersOf op) = .ok φ` for a well-formed formula. -/
theorem WellFormed.combine_membersOf (h : φ.WellFormed leaves) (op : Connective) :
    combine op (φ.membersOf op) = .ok φ := by
  cases same : φ.isConnective op with
  | false =>
    have alone := membersOf_of_not same
    rw [alone, combine, spliced, List.flatMap_singleton, alone]
  | true =>
    cases φ with
    | connective op' φs =>
      obtain rfl : op' = op := by simpa [isConnective] using same
      rw [membersOf, if_pos rfl, h.combine_eq]
    | _ => cases same

/-- `c.toFormula = .ok ψ`, in order, for the clauses of a well-formed formula and the members of its
matrix. -/
theorem forall₂_toFormula (wellFormed : φ.WellFormed leaves) (h : φ.clauses = .ok cs) :
    List.Forall₂ (fun c ψ => c.toFormula = .ok ψ) cs (φ.matrix.membersOf .and) := by
  obtain ⟨clausal, rfl⟩ := clauses_eq_ok_iff.1 h
  have literals := isClausal_iff.1 clausal
  rw [List.forall₂_map_left_iff, List.forall₂_same]
  intro ψ mem
  have member := (wellFormed.blocks_matrix.2.of_mem_membersOf mem).1
  rw [Clause.toFormula, map_toFormula_filterMap (literals ψ mem), member.combine_membersOf]

/-- `ofClauses cs = .ok φ.matrix` for the clauses `cs` of a well-formed formula. -/
theorem ofClauses_of_clauses (wellFormed : φ.WellFormed leaves) (h : φ.clauses = .ok cs) :
    ofClauses cs = .ok φ.matrix :=
  bind_eq_ok_iff.2 ⟨_, inOrder_map_eq_ok.2 (forall₂_toFormula wellFormed h),
    wellFormed.blocks_matrix.2.combine_membersOf .and⟩

/-- `φ.clauses = .ok cs` only with literals without functions. -/
theorem isFunctionFree_of_clauses (h : φ.clauses = .ok cs) :
    ∀ c ∈ cs, ∀ l ∈ c.literals, l.isFunctionFree = true := by
  obtain ⟨clausal, rfl⟩ := clauses_eq_ok_iff.1 h
  rw [List.forall_mem_map]
  intro ψ mem l hl
  obtain ⟨χ, hχ, read⟩ := List.mem_filterMap.1 hl
  have literal := isClausal_iff.1 clausal ψ mem χ hχ
  obtain ⟨l', read', functionFree⟩ := isFunctionFreeLiteral_iff.1 literal
  rw [read] at read'
  cases read'
  exact functionFree

end Formula

/-! ## Clauses of reports -/

/-- `l.toLiteral`: the literal that the report is about, if all of its arguments are variables. -/
def LiteralReport.toLiteral (l : LiteralReport) : Literal :=
  ⟨⟨l.predicate, l.args.map .var⟩, l.positive⟩

/-- `c.toClause`: the clause that the report is about, if it has no functions. -/
def ClauseReport.toClause (c : ClauseReport) : Clause := ⟨c.literals.map LiteralReport.toLiteral⟩

/-- `(ofLiteral l).toLiteral = l` for a literal without functions. -/
theorem LiteralReport.toLiteral_ofLiteral {l : Literal} (functionFree : l.isFunctionFree = true) :
    (LiteralReport.ofLiteral l).toLiteral = l := by
  obtain ⟨⟨p, args⟩, positive⟩ := l
  have plain : ∀ t ∈ args, t.isApplication = false := by
    simpa [Literal.isFunctionFree, Atom.hasFunctions] using functionFree
  have same : (args.map Term.text).map Term.var = args := by
    rw [List.map_map]
    refine (List.map_congr_left fun t mem => ?_).trans (List.map_id args)
    cases t with
    | var x => rw [Function.comp, Term.text, id]
    | app g ts => cases plain _ mem
  rw [LiteralReport.ofLiteral, LiteralReport.toLiteral, same]

/-- `(ofClause c).toClause = c` for a clause without functions. -/
theorem ClauseReport.toClause_ofClause {c : Clause}
    (functionFree : ∀ l ∈ c.literals, l.isFunctionFree = true) :
    (ClauseReport.ofClause c).toClause = c := by
  rw [ClauseReport.ofClause, ClauseReport.toClause, List.map_map]
  refine congrArg Clause.mk ((List.map_congr_left fun l mem => ?_).trans (List.map_id c.literals))
  exact LiteralReport.toLiteral_ofLiteral (functionFree l mem)

namespace Formula

variable {leaves : Leaves} {φ : Formula} {cs : List Clause} {bs : List Block}
  {reported : List ClauseReport} {source source' : Option String} {text : String}

/-- `underBlocks bs <$> ofClauses (reported.map toClause) = .ok φ` for the blocks and clauses that
are reported of `φ`. -/
theorem ofClauses_of_report (wellFormed : φ.WellFormed leaves) (clausal : φ.isClausal = true)
    (report : Report.ofStatement ⟨φ, source⟩ = .normalized source' text bs reported) :
    underBlocks bs <$> ofClauses (reported.map ClauseReport.toClause) = .ok φ := by
  obtain ⟨cs, read⟩ := exists_clauses_iff.2 clausal
  rw [Report.ofStatement, read] at report
  cases report
  have same : (cs.map ClauseReport.ofClause).map ClauseReport.toClause = cs := by
    rw [List.map_map]
    refine (List.map_congr_left fun c mem => ?_).trans (List.map_id cs)
    exact ClauseReport.toClause_ofClause (isFunctionFree_of_clauses read c mem)
  rw [same, ofClauses_of_clauses wellFormed read]
  exact congrArg Except.ok (underBlocks_blocks_matrix φ)

/-- **Clauses determine the formula.** `φ.clauses` succeeds, for a valid `φ`, exactly if
`φ.isClausal`. Then every clause has a literal, and the conjunction of the clauses below `φ.blocks`
is `φ`, whether the quantifiers are put in front as they are or built one by one. No other valid
formula in clausal form is reported with the same blocks and clauses. -/
theorem determined_by_clauses (valid : φ.validate = .ok ()) :
    ((∃ cs, φ.clauses = .ok cs) ↔ φ.isClausal = true) ∧
      (∀ cs, φ.clauses = .ok cs → (∀ c ∈ cs, c.literals ≠ []) ∧
        ∃ ψ, ofClauses cs = .ok ψ ∧ underBlocks φ.blocks ψ = φ ∧ quantifyBlocks φ.blocks ψ = φ) ∧
      ∀ ψ : Formula, ψ.validate = .ok () → φ.isClausal = true → ψ.isClausal = true →
        ∀ source source' text text' bs reported,
          Report.ofStatement ⟨φ, source⟩ = .normalized source text bs reported →
            Report.ofStatement ⟨ψ, source'⟩ = .normalized source' text' bs reported → φ = ψ := by
  have wellFormed := validate_eq_ok_iff.1 valid
  refine ⟨exists_clauses_iff, ?_, ?_⟩
  · intro cs read
    refine ⟨?_, φ.matrix, ofClauses_of_clauses wellFormed read, underBlocks_blocks_matrix φ, ?_⟩
    · exact forall_right_of_forall₂ (forall₂_toFormula wellFormed read).flip
        fun ψ c built => Clause.literals_ne_nil built
    · rw [quantifyBlocks_eq wellFormed.blocks_matrix.1, underBlocks_blocks_matrix]
  · intro ψ valid' clausal clausal' source source' text text' bs reported left right
    -- Both formulas are what the blocks and clauses of the reports build.
    have first := ofClauses_of_report wellFormed clausal left
    have second := ofClauses_of_report (validate_eq_ok_iff.1 valid') clausal' right
    exact Except.ok.inj (first.symm.trans second)

/-- The formula `∀(x,y)[∃(z)[((A(x) | ~B(y,z)) & C(z))]]`. -/
def twoClauses : Formula :=
  .quantified .universal ["x", "y"] <| .quantified .existential ["z"] <| .connective .and
    [.connective .or [.atom ⟨"A", [.var "x"]⟩, .not (.atom ⟨"B", [.var "y", .var "z"]⟩)],
      .atom ⟨"C", [.var "z"]⟩]

/-- The formula `∀(x,y)[∃(z)[(A(x) & ~B(y,z) & C(z))]]`, with the same literals in three clauses. -/
def threeClauses : Formula :=
  .quantified .universal ["x", "y"] <| .quantified .existential ["z"] <| .connective .and
    [.atom ⟨"A", [.var "x"]⟩, .not (.atom ⟨"B", [.var "y", .var "z"]⟩), .atom ⟨"C", [.var "z"]⟩]

/-- `twoClauses` is built from its two clauses, one of them a single literal. It has the blocks of
`threeClauses`, where the same literals stand in three clauses, but not its clauses. -/
theorem twoClauses_determined :
    twoClauses.validate = .ok () ∧ threeClauses.validate = .ok () ∧
      ofClauses [⟨[⟨⟨"A", [.var "x"]⟩, true⟩, ⟨⟨"B", [.var "y", .var "z"]⟩, false⟩]⟩,
        ⟨[⟨⟨"C", [.var "z"]⟩, true⟩]⟩] = .ok twoClauses.matrix ∧
      twoClauses.blocks = threeClauses.blocks ∧ ∀ text text' bs reported,
        Report.ofStatement ⟨twoClauses, none⟩ = .normalized none text bs reported →
          Report.ofStatement ⟨threeClauses, none⟩ ≠ .normalized none text' bs reported := by
  have valid : twoClauses.validate = .ok () := by cbv
  have valid' : threeClauses.validate = .ok () := by cbv
  obtain ⟨-, built, apart⟩ := determined_by_clauses valid
  refine ⟨valid, valid', ?_, rfl, ?_⟩
  · obtain ⟨-, ψ, conjunction, under, -⟩ := built _ (by cbv)
    cases under
    exact conjunction
  · intro text text' bs reported left right
    have same := apart threeClauses valid' (by cbv) (by cbv) none none text text' bs reported left
      right
    cases same

end Formula

end ClausalForm
