import ClausalForm.Proofs.KeptNormalForms
import ClausalForm.Proofs.StandardizedForms

/-! # Function-free forms

Elimination on its own, with any supply of fresh names that knows the names of the formula, as when
several formulas draw on one supply.

* **`Formula.IsFunctionFreeFormOf`**: what a formula without functions keeps of the one with them.
* **`Formula.exists_functionFreeForm`**: elimination returns such a form. -/

namespace ClausalForm.Formula

variable {allowed : String → Prop} {φ r : Formula} {s : FreshSupply}

/-- `φ.hasFunctions = false`: a formula that is well-formed as one without functions has none. -/
theorem WellFormed.hasFunctions_eq_false (h : φ.WellFormed (.functionFree allowed)) :
    φ.hasFunctions = false := by
  induction h with
  | atom names =>
    rw [hasFunctions]
    exact names.2
  | not _ _ ih =>
    rw [hasFunctions]
    exact ih
  | connective _ _ _ ih =>
    rw [hasFunctions, List.any_map, List.any_eq_false]
    intro φ mem
    simp [ih φ mem]
  | quantified _ _ ih =>
    rw [hasFunctions]
    exact ih

/-- The formula `r` says without functions what `φ` says. -/
structure IsFunctionFreeFormOf (φ r : Formula) : Prop where
  /-- No function is applied. -/
  functionFree : r.hasFunctions = false
  /-- The free variables are those of the formula. -/
  free : r.freeVariables.Perm φ.freeVariables
  /-- Besides what the formula binds, one new variable is bound for each application. -/
  binds : ∃ names : List String, r.boundVariables.Perm (φ.boundVariables ++ names) ∧
    names.length = φ.applications.length ∧ names.Nodup ∧ ∀ x ∈ names, x ∉ φ.variableNames
  /-- Both have the same truth where the predicates that replace functions are their graphs. -/
  holds : ∀ {D : Type} (S : Structure D), (∀ p ∈ φ.applications, S.IsGraph p.1 p.2) →
    ∀ v : Valuation D, r.Holds S v ↔ φ.Holds S v
  /-- Without functions there is nothing to change. -/
  self : φ.hasFunctions = false → r = φ

/-- **Function-free forms.** Eliminating the functions of a formula `φ` that passes the check
returns a form `r` without them, if the supply of fresh names never hands out a name of the
formula. -/
theorem exists_functionFreeForm (φ : Formula) (s : FreshSupply) (valid : φ.validate = .ok ())
    (taken : ∀ x ∈ φ.variableNames, x ∈ s.taken) :
    ∃ r, (φ.eliminateFunctions s).1.result = .ok r ∧ IsFunctionFreeFormOf φ r := by
  have checked := validate_eq_ok_iff.1 valid
  have wellFormed : φ.WellFormed (.naming fun _ => True) :=
    checked.mono (fun a _ => ⟨trivial, fun p _ => trivial⟩) id
  have spec := ensures_eliminateFunctions wellFormed fun x mem =>
    taken x (mem_variableNames.2 (.inr mem))
  cases result : (φ.eliminateFunctions s).1.result with
  | error e => exact (spec.of_error result).elim
  | ok r =>
    obtain ⟨eliminated, names, issues, length, perm⟩ := spec.of_ok result
    have new : ∀ x ∈ names, x ∉ φ.variableNames := fun x mem known =>
      issues.fresh x mem (taken x known)
    refine ⟨r, rfl, eliminated.wellFormed.hasFunctions_eq_false, freeVariables_perm eliminated.free,
      ⟨names, perm, length, issues.nodup, new⟩, fun S graphs v => eliminated.holds S v graphs, ?_⟩
    intro functionFree
    -- Seen as a formula without functions, it is what elimination returns.
    have same := eliminateFunctions_self (checked.functionFree functionFree)
      (fun a allowed => allowed.2) s
    rw [result] at same
    exact Except.ok.inj same

/-- The formula `(~A(f(g(x)),y) & ∃(f1)[~~B(c(),f1)])`. -/
def nestedApplications : Formula :=
  .connective .and
    [.not (.atom ⟨"A", [.app "f" [.app "g" [.var "x"]], .var "y"]⟩),
      .quantified .existential ["f1"] (.not (.not (.atom ⟨"B", [.app "c" [], .var "f1"]⟩)))]

/-- `nestedApplications`: a supply that has been used before eliminates the nested applications. -/
theorem exists_functionFreeForm_nestedApplications :
    nestedApplications.validate = .ok () ∧
      (∀ x ∈ nestedApplications.variableNames, x ∈ ["f2", "f1", "y", "x"]) ∧
      ∃ r, (nestedApplications.eliminateFunctions ⟨["f2", "f1", "y", "x"], 2⟩).1.result = .ok r ∧
        IsFunctionFreeFormOf nestedApplications r := by
  have valid : nestedApplications.validate = .ok () := by cbv
  have names : nestedApplications.variableNames = ["f1", "x", "y"] := by cbv
  have taken : ∀ x ∈ nestedApplications.variableNames, x ∈ ["f2", "f1", "y", "x"] := by
    rw [names]
    decide
  exact ⟨valid, taken, exists_functionFreeForm _ ⟨_, 2⟩ valid taken⟩

end ClausalForm.Formula
