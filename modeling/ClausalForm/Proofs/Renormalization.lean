import ClausalForm.Proofs.AlphaInvariance
import ClausalForm.Proofs.KeptNormalForms
import ClausalForm.Proofs.ReplacedVariables
import ClausalForm.Proofs.SharedVariables

/-! # Normal forms of normal forms

A normal form has a normal form, which differs from it in the names of bound variables only: moving
quantifiers to the front may have changed their order, in which the names are given. The second
normal form is its own.

* **`Formula.Standardized.exists_isRenamedBy`**: standardizing renames bound variables one to one.
* **`Formula.IsNormal.passes_eq`**: on a normal form the passes only standardize variables.
* **`Statement.exists_normalize_of_normalize`**: the normal form of a normal form. -/

namespace ClausalForm

namespace Formula

variable {φ χ ψ r : Formula} {settings : Settings} {allowed : String → Prop}

/-! ## Variables renamed one to one -/

/-- `r` is `φ` with its bound variables renamed one to one: the same kinds of quantifiers over
equally many variables each, in front of the same clauses in the same order. -/
structure IsRenamedBy (f : String → String) (φ r : Formula) : Prop where
  eq : r = φ.replace f
  /-- Free variables are kept. -/
  free : ∀ x ∈ φ.freeVariables, f x = x
  /-- Different variables have different names. -/
  injective : ∀ x ∈ φ.variableNames, ∀ y ∈ φ.variableNames, f x = f y → x = y
  blocks : r.blocks = φ.blocks.map (Block.replace f)
  clauses : ∃ cs, φ.clauses = .ok cs ∧ r.clauses = .ok (cs.map (Clause.replace f))

/-- `x ∈ φ.occurrences`: an occurrence of a variable is free or below a quantifier that binds it. -/
theorem free_or_bound_of_mem_occurrences {x : String} (mem : x ∈ φ.occurrences) :
    x ∈ φ.freeOccurrences ∨ x ∈ φ.boundVariables := by
  induction φ using induction with
  | atom a =>
    rw [occurrences] at mem
    exact .inl (by rwa [freeOccurrences_atom])
  | not φ ih =>
    rw [occurrences] at mem
    rw [freeOccurrences_not, boundVariables_not]
    exact ih mem
  | connective op φs ih =>
    rw [occurrences] at mem
    obtain ⟨φ, hφ, mem⟩ := List.mem_flatMap.1 mem
    rw [freeOccurrences_connective, boundVariables_connective]
    exact (ih φ hφ mem).imp (fun h => List.mem_flatMap.2 ⟨φ, hφ, h⟩)
      fun h => List.mem_flatMap.2 ⟨φ, hφ, h⟩
  | quantified q xs φ ih =>
    -- An occurrence in the body is bound here, or is what it was in the body.
    rw [occurrences] at mem
    rw [mem_freeOccurrences_quantified, boundVariables_quantified, List.mem_append]
    by_cases bound : x ∈ xs
    · exact .inr (.inl bound)
    · exact (ih mem).imp (fun h => ⟨h, bound⟩) .inr

/-- `x ∈ φ.variableNames`: every variable is bound or free. -/
theorem bound_or_free {x : String} (mem : x ∈ φ.variableNames) :
    x ∈ φ.boundVariables ∨ x ∈ φ.freeOccurrences :=
  (mem_variableNames.1 mem).elim .inl fun occurs => (free_or_bound_of_mem_occurrences occurs).symm

/-- `Standardized φ r`: the new names of separated variables tell them apart, and a free variable is
its own. -/
theorem Standardized.exists_renaming (h : Standardized φ r) (separated : φ.Separated) :
    ∃ f : String → String, r.boundVariables = φ.boundVariables.map f ∧
      (∀ x ∈ φ.freeOccurrences, f x = x) ∧
      ∀ x ∈ φ.variableNames, ∀ y ∈ φ.variableNames, f x = f y → x = y := by
  have length := h.alike.length_boundVariables.symm
  have le := Nat.le_of_eq length
  have keeps : ∀ x ∈ φ.freeOccurrences,
      (Renaming.ofPlaces φ.boundVariables r.boundVariables).rename x = x := fun x mem =>
    Renaming.rename_ofPlaces_of_not_mem le fun bound => separated.apart x bound mem
  refine ⟨_, (Renaming.map_rename_ofPlaces length separated.nodup).symm, keeps, ?_⟩
  -- No new name is that of a free variable.
  have apart : ∀ x ∈ φ.boundVariables, ∀ y ∈ φ.freeOccurrences,
      (Renaming.ofPlaces φ.boundVariables r.boundVariables).rename x ≠
        (Renaming.ofPlaces φ.boundVariables r.boundVariables).rename y := by
    intro x hx y hy same
    rw [keeps y hy] at same
    exact h.apart y (same ▸ Renaming.rename_ofPlaces_mem le hx) hy
  intro x hx y hy same
  rcases bound_or_free hx, bound_or_free hy with ⟨hx | hx, hy | hy⟩
  · exact Renaming.rename_ofPlaces_inj le h.nodup hx hy same
  · exact absurd same (apart x hx y hy)
  · exact absurd same.symm (apart y hy x hx)
  · rwa [keeps x hx, keeps y hy] at same

/-- `IsRenamedBy f φ r`: standardizing a formula in clausal form with separated variables renames
them one to one. -/
theorem Standardized.exists_isRenamedBy (h : Standardized φ r) (separated : φ.Separated)
    (clausal : φ.isClausal = true) : ∃ f, IsRenamedBy f φ r := by
  obtain ⟨f, bound, keeps, injective⟩ := h.exists_renaming separated
  obtain ⟨cs, clauses⟩ : ∃ cs, φ.clauses = .ok cs := exists_clauses_iff.2 clausal
  have eq := h.alike.eq_replace (fun x mem => (keeps x mem).symm) bound
  refine ⟨f, eq, fun x mem => keeps x (mem_freeVariables.1 mem), injective, ?_, cs, clauses, ?_⟩
  · rw [eq, blocks_replace]
  · rw [eq, clauses_replace f clauses]

/-! ## The passes on normal forms -/

/-- `IsNormal leaves r`: a standardized normal form is a normal form. -/
theorem Standardized.isNormal {leaves : Leaves} (h : Standardized φ r) (normal : IsNormal leaves φ)
    {f : String → String} (renamed : IsRenamedBy f φ r) : IsNormal leaves r := by
  have wellFormed := h.wellFormed normal.wellFormed
  rw [renamed.eq] at wellFormed ⊢
  exact normal.replace f wellFormed

/-- `φ.passes settings = .ok r`: on a normal form without functions the passes do nothing but
standardize its variables. -/
theorem IsNormal.passes_eq {leaves : Leaves} (normal : IsNormal leaves.literals φ)
    (functionFree : ∀ a, leaves.atom a → a.hasFunctions = false) (valid : φ.validate = .ok ())
    (standardized : (φ.standardize settings).result = .ok r)
    (form : IsNormal leaves.literals r) : φ.passes settings = .ok r := by
  have eliminated := eliminateFunctions_self normal.wellFormed functionFree
    (.avoiding φ.variableNames)
  simp only [passes, valid, eliminated, standardized, form.pushNegations_self, bind, Except.bind]
  exact form.prenexForm_self

end Formula

namespace Statement

variable {s r : Statement} {settings : Settings}

/-- `φ.standardize settings`: what is standardized and rewritten can be standardized again, as it
has no more bound variables and the same free ones. -/
theorem exists_standardize_of_rewrites {ψ χ φ : Formula}
    (standardized : (ψ.standardize settings).result = .ok χ) (rewrites : Formula.Rewrites χ φ) :
    ∃ r, (φ.standardize settings).result = .ok r := by
  obtain ⟨renamed, closed, enough⟩ := Formula.standardized_of_standardize standardized
  have within := rewrites.within renamed.separated
  have perm : φ.freeVariables.Perm ψ.freeVariables :=
    Formula.freeVariables_perm fun x => by rw [within.free, renamed.freeOccurrences_eq]
  have fewer : φ.boundVariables.length ≤ ψ.boundVariables.length := by
    rw [← renamed.alike.length_boundVariables]
    exact (List.subperm_of_subset within.nodup within.bound).length_le
  refine Formula.exists_standardize_iff.2 ⟨closed.imp_right fun none => ?_, enough.imp_right ?_⟩
  · exact (none ▸ perm).eq_nil
  · rw [(perm.filter _).length_eq]
    exact Nat.le_trans fewer

/-- The normal form of a statement whose functions have names passes the check. -/
theorem validate_of_named (valid : s.formula.validate = .ok ())
    (normalized : (s.normalize settings).result = .ok r)
    (named : ∀ p ∈ s.formula.applications, p.1 ≠ "") {leaves : Leaves}
    (wellFormed : r.formula.WellFormed leaves) : r.formula.validate = .ok () := by
  rw [Formula.validate_of_wellFormed wellFormed, if_pos]
  intro p mem
  rcases (mem_signature_of_normalize valid normalized p).1 mem with mem | mem
  · exact Formula.named_of_validate valid p mem
  · obtain ⟨f, hf, rfl⟩ := List.mem_map.1 mem
    exact named f hf

/-- **Normalizing a normal form.** A normal form has a normal form, which is the first one with its
bound variables renamed one to one, and its own normal form. -/
theorem exists_normalize_of_normalize (s r : Statement) (settings : Settings)
    (valid : s.formula.validate = .ok ()) (named : ∀ p ∈ s.formula.applications, p.1 ≠ "")
    (normalized : (s.normalize settings).result = .ok r) :
    ∃ r' f, (r.normalize settings).result = .ok r' ∧ r.formula.IsRenamedBy f r'.formula ∧
      (r'.normalize settings).result = .ok r' := by
  obtain ⟨ψ, -, -, outcome⟩ := exists_outcome_of_validate valid settings
  rw [normalized] at outcome
  cases outcome with
  | @form χ φ standardized rewrites normal =>
    have functionFree : ∀ a, (Leaves.functionFree fun _ => True).literals.atom a →
        a.hasFunctions = false := fun a allowed => allowed.2
    obtain ⟨renamed, -, -⟩ := Formula.standardized_of_standardize standardized
    have separated := rewrites.separated renamed.separated
    have check : φ.validate = .ok () := validate_of_named valid normalized named normal.wellFormed
    obtain ⟨φ', again⟩ := exists_standardize_of_rewrites standardized rewrites
    obtain ⟨renamed', -, -⟩ := Formula.standardized_of_standardize again
    obtain ⟨f, oneToOne⟩ := renamed'.exists_isRenamedBy separated (normal.isClausal functionFree)
    have normal' := renamed'.isNormal normal oneToOne
    have check' : φ'.validate = .ok () := Formula.validate_eq_ok_iff.2
      (renamed'.wellFormed (Formula.validate_eq_ok_iff.1 check))
    -- Standardizing does not see the names that it has given itself.
    have fixed : (φ'.standardize settings).result = .ok φ' := by
      rw [← renamed'.alike.result_standardize_eq, again]
    exact ⟨{ s with formula := φ' }, f,
      normalize_of_passes (normal.passes_eq functionFree check again normal'), oneToOne,
      normalize_of_passes (normal'.passes_eq functionFree check' fixed normal')⟩

/-- The statement `(∃(x)[A(x)] & ∀(x)[B(x)])`. -/
def existentialFirst : Statement where
  formula := .opposed .and .existential ["x"] ["x"] (.monadic "A" "x") (.monadic "B" "x")

/-- A statement `∀(x)[∃(y)[(A(y) & B(x))]]`. -/
def universalFirst (x y : String) : Statement where
  formula := .quantified .universal [x] (.quantified .existential [y]
    (.connective .and [.monadic "A" y, .monadic "B" x]))

set_option maxRecDepth 10000 in
/-- `universalFirst`: the universal quantifier is moved in front of the existential one, so that it
gets the first name when the normal form is normalized again. -/
theorem normalize_universalFirst :
    existentialFirst.formula.validate = .ok () ∧
      (∀ p ∈ existentialFirst.formula.applications, p.1 ≠ "") ∧
      (existentialFirst.normalize {}).result = .ok (universalFirst "y" "z") ∧
      ((universalFirst "y" "z").normalize {}).result = .ok (universalFirst "z" "y") ∧
      (∃ f, (universalFirst "y" "z").formula.IsRenamedBy f (universalFirst "z" "y").formula) ∧
      ((universalFirst "z" "y").normalize {}).result = .ok (universalFirst "z" "y") := by
  have valid : existentialFirst.formula.validate = .ok () := by cbv
  have named : ∀ p ∈ existentialFirst.formula.applications, p.1 ≠ "" := by
    simp [existentialFirst, Formula.opposed, Formula.monadic, Formula.applications,
      Atom.applications, Term.applications]
  have normalized : (existentialFirst.normalize {}).result = .ok (universalFirst "y" "z") :=
    normalize_of_passes (by cbv)
  have second : ((universalFirst "y" "z").normalize {}).result = .ok (universalFirst "z" "y") :=
    normalize_of_passes (by cbv)
  obtain ⟨r', f, again, oneToOne, fixed⟩ :=
    exists_normalize_of_normalize existentialFirst _ {} valid named normalized
  obtain rfl : universalFirst "z" "y" = r' := Except.ok.inj (second.symm.trans again)
  exact ⟨valid, named, normalized, second, ⟨f, oneToOne⟩, fixed⟩

end Statement

end ClausalForm
