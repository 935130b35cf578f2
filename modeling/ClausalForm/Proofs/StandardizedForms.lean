import ClausalForm.Proofs.FunctionElimination
import ClausalForm.Proofs.Prenexing

/-! # Prenex conjunctive forms of standardized formulas

The last stage of the normalization on its own. A formula without functions whose bound variables
are distinct, and none of them free, has a prenex conjunctive normal form, whether or not its
negations have been pushed down before.

* **`Formula.WellFormed.functionFree`**: formulas without functions are well-formed as such.
* **`Formula.exists_prenexForm_of_standardized`**: the form and what it keeps. -/

namespace ClausalForm.Formula

variable {leaves : Leaves} {φ : Formula}

/-- A well-formed formula without functions is well-formed as one. -/
theorem WellFormed.functionFree (h : φ.WellFormed leaves) (functionFree : φ.hasFunctions = false) :
    φ.WellFormed (.functionFree fun _ => True) := by
  induction h with
  | @atom a _ =>
    rw [hasFunctions] at functionFree
    exact .atom ⟨trivial, functionFree⟩
  | not _ _ ih =>
    rw [hasFunctions] at functionFree
    exact .not (.inr trivial) (ih functionFree)
  | @connective op φs two flat _ ih =>
    rw [hasFunctions, List.any_map, List.any_eq_false] at functionFree
    exact .connective two flat fun φ mem => ih φ mem (by simpa using functionFree φ mem)
  | quantified binder _ ih =>
    rw [hasFunctions] at functionFree
    exact .quantified binder (ih functionFree)

/-- **Prenex forms of standardized formulas.** A well-formed formula `φ` without functions whose
bound variables are distinct, and none of them free, has a prenex conjunctive normal form. It is in
clausal form, has the same free variables and no other bound ones, each once, and has the same
truth. -/
theorem exists_prenexForm_of_standardized (φ : Formula) (valid : φ.validate = .ok ())
    (functionFree : φ.hasFunctions = false) (nodup : φ.boundVariables.Nodup)
    (apart : ∀ x ∈ φ.boundVariables, x ∉ φ.freeVariables) :
    ∃ r, φ.prenexForm = .ok r ∧ r.isClausal = true ∧
      (∀ x, x ∈ r.freeVariables ↔ x ∈ φ.freeVariables) ∧
      r.boundVariables ⊆ φ.boundVariables ∧ r.boundVariables.Nodup ∧ Equivalent φ r := by
  simp only [freeVariables, mem_distinct] at apart ⊢
  have wellFormed := (validate_eq_ok_iff.1 valid).functionFree functionFree
  have separated : φ.Separated := ⟨nodup, apart⟩
  obtain ⟨r, found, rewrites, normal⟩ := exists_prenexForm wellFormed separated
  have within := rewrites.within separated
  exact ⟨r, found, normal.isClausal fun a allowed => allowed.2, within.free,
    fun x mem => within.bound x mem, within.nodup, fun D _ S v => (rewrites.holds S v).symm⟩

/-- The formula `~(∀(x)[~(A(x) & ~~B(x,u))] | ∃(y)[C(y)])`, in which `u` is free. -/
def unpushed : Formula :=
  .not (.connective .or
    [.quantified .universal ["x"] (.not (.connective .and
      [.atom ⟨"A", [.var "x"]⟩, .not (.not (.atom ⟨"B", [.var "x", .var "u"]⟩))])),
      .quantified .existential ["y"] (.atom ⟨"C", [.var "y"]⟩)])

/-- `unpushed`, whose negations are not pushed down, has a prenex conjunctive normal form. -/
theorem exists_prenexForm_unpushed :
    unpushed.validate = .ok () ∧ unpushed.hasFunctions = false ∧ unpushed.boundVariables.Nodup ∧
      (∀ x ∈ unpushed.boundVariables, x ∉ unpushed.freeVariables) ∧
      ∃ r, unpushed.prenexForm = .ok r ∧ r.isClausal = true ∧
        (∀ x, x ∈ r.freeVariables ↔ x ∈ unpushed.freeVariables) ∧
        r.boundVariables ⊆ unpushed.boundVariables ∧ r.boundVariables.Nodup ∧
        Equivalent unpushed r := by
  have valid : unpushed.validate = .ok () := by cbv
  have functionFree : unpushed.hasFunctions = false := by
    simp [unpushed, hasFunctions, Atom.hasFunctions, Term.isApplication]
  have bound : unpushed.boundVariables = ["x", "y"] := by cbv
  have free : unpushed.freeVariables = ["u"] := by cbv
  have nodup : unpushed.boundVariables.Nodup := by rw [bound]; decide
  have apart : ∀ x ∈ unpushed.boundVariables, x ∉ unpushed.freeVariables := by
    rw [bound, free]
    decide
  exact ⟨valid, functionFree, nodup, apart,
    exists_prenexForm_of_standardized _ valid functionFree nodup apart⟩

end ClausalForm.Formula
