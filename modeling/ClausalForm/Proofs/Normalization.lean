import ClausalForm.Proofs.FunctionElimination
import ClausalForm.Proofs.Prenexing
import ClausalForm.Proofs.Standardization
import ClausalForm.Statement
import Mathlib

/-! # Normalization

The passes one after the other. Only the standardization of variables may fail on a well-formed
formula, and what the passes return is a normal form of the formula.

* **`Statement.exists_outcome`**: what the passes do to a well-formed formula.
* **`Statement.holds_iff_of_normalize`**: the normal form says what the formula says.
* **`Statement.isNormalFormOf_of_normalize`**: the shape of the normal form, and its variables.
* **`Statement.normalize_succeeds_iff`**: when there is a normal form. -/

namespace ClausalForm

/-- Formulas with the same free variables list them in some order. -/
theorem Formula.freeVariables_perm {φ ψ : Formula}
    (same : ∀ x, x ∈ ψ.freeOccurrences ↔ x ∈ φ.freeOccurrences) :
    ψ.freeVariables.Perm φ.freeVariables := by
  refine (List.perm_ext_iff_of_nodup ψ.nodup_freeVariables φ.nodup_freeVariables).2 ?_
  intro x
  rw [mem_freeVariables, mem_freeVariables, same x]

/-- `x ∈ φ.variableNames`: every variable of a formula is among its names. -/
theorem Formula.mem_variableNames {φ : Formula} {x : String} :
    x ∈ φ.variableNames ↔ x ∈ φ.boundVariables ∨ x ∈ φ.occurrences := by
  rw [variableNames, mem_distinct, List.mem_append]

/-- `φ.passes settings`: the passes over a formula, without the messages that they leave behind. -/
def Formula.passes (settings : Settings) (φ : Formula) : Except NormalizationError Formula := do
  φ.validate
  let functionFree ← (φ.eliminateFunctions (.avoiding φ.variableNames)).1.result
  let standardized ← (functionFree.standardize settings).result
  let pushed ← standardized.pushNegations
  pushed.prenexForm

/-- `φ.recordedPrenexForm`: the message about a prenex conjunctive normal form does not change
it. -/
theorem Formula.result_recordedPrenexForm (φ : Formula) :
    φ.recordedPrenexForm.result = φ.prenexForm := by
  rw [recordedPrenexForm, Recorded.result_bind, Recorded.result_ofExcept]
  cases φ.prenexForm <;> rfl

namespace Statement

variable {s t : Statement} {settings : Settings} {allowed : String → Prop}

/-! ## The stages -/

/-- `s.rewritten stage formula`: a stage succeeds if its rewriting does, and fails with its
error. -/
theorem result_rewritten (s : Statement) (stage : Stage)
    (formula : Recorded NormalizationError Formula) :
    (s.rewritten stage formula).result =
      match formula.result with
      | .ok φ => .ok { s with formula := φ }
      | .error e => .error ⟨stage, s.label, e⟩ := by
  rw [rewritten, Recorded.result_bind]
  show (formula.result.mapError _ >>= _) = _
  cases formula.result <;> rfl

/-- `(s.normalize settings).result`: the stages follow each other. What is recorded in between does
not change the result. -/
theorem result_normalize (s : Statement) (settings : Settings) :
    (s.normalize settings).result = s.validate >>= fun _ => s.eliminateFunctions.result >>=
      fun functionFree => (functionFree.standardize settings).result >>= fun standardized =>
        (standardized.pushNegations >>= fun pushed => pushed.prenexForm).result := by
  have last : ∀ x : Except StageFailure Statement,
      (x >>= fun t => (Except.ok () : Except StageFailure Unit) >>= fun _ => .ok t) = x := by
    intro x
    cases x <;> rfl
  rw [normalize]
  simp only [Recorded.result_bind, Recorded.result_record, Recorded.result_ofExcept,
    Recorded.result_pure, last]
  rfl

/-- The last two stages succeed if their rewritings do. -/
theorem result_prenexForm (s : Statement) {ψ r : Formula} (pushed : s.formula.pushNegations = .ok ψ)
    (form : ψ.prenexForm = .ok r) :
    (s.pushNegations >>= fun pushed => pushed.prenexForm).result = .ok { s with formula := r } := by
  rw [Recorded.result_bind, pushNegations, result_rewritten, Recorded.result_ofExcept, pushed]
  show (prenexForm { s with formula := ψ }).result = _
  rw [prenexForm, result_rewritten, Formula.result_recordedPrenexForm, form]

/-- `(s.rewritten stage formula).result = .ok t`: what a stage returns is the statement with its
formula rewritten. -/
theorem rewritten_eq_ok_iff {stage : Stage} {formula : Recorded NormalizationError Formula} :
    (s.rewritten stage formula).result = .ok t ↔
      ∃ φ, formula.result = .ok φ ∧ t = { s with formula := φ } := by
  rw [result_rewritten]
  cases formula.result <;> simp [eq_comm]

/-- `(s.normalize settings).result = .ok t`: the normal form of a statement is the statement with
what `Formula.passes` makes of its formula. -/
theorem normalize_eq_ok_iff : (s.normalize settings).result = .ok t ↔
    ∃ φ, s.formula.passes settings = .ok φ ∧ t = { s with formula := φ } := by
  simp only [result_normalize, Formula.passes, validate, eliminateFunctions, standardize,
    pushNegations, prenexForm, Recorded.result_bind, Recorded.result_ofExcept,
    Formula.result_recordedPrenexForm, bind_eq_ok_iff, mapError_eq_ok_iff, rewritten_eq_ok_iff]
  constructor
  · rintro ⟨⟨⟩, valid, _, ⟨ψ, functionFree, rfl⟩, _, ⟨χ, standardized, rfl⟩, _, ⟨ω, pushed, rfl⟩,
      φ, form, rfl⟩
    exact ⟨φ, ⟨(), valid, ψ, functionFree, χ, standardized, ω, pushed, form⟩, rfl⟩
  · rintro ⟨φ, ⟨⟨⟩, valid, ψ, functionFree, χ, standardized, ω, pushed, form⟩, rfl⟩
    exact ⟨(), valid, _, ⟨ψ, functionFree, rfl⟩, _, ⟨χ, standardized, rfl⟩, _, ⟨ω, pushed, rfl⟩,
      φ, form, rfl⟩

/-- What the passes make of the formula is the normal form of the statement. -/
theorem normalize_of_passes {r : Formula} (h : s.formula.passes settings = .ok r) :
    (s.normalize settings).result = .ok { s with formula := r } :=
  normalize_eq_ok_iff.2 ⟨r, h, rfl⟩

/-- `s.eliminateFunctions`: the functions of a well-formed formula are eliminated. -/
theorem exists_eliminateFunctions (s : Statement)
    (wellFormed : s.formula.WellFormed (.naming allowed)) :
    ∃ ψ, s.eliminateFunctions.result = .ok { s with formula := ψ } ∧
      Formula.Eliminated allowed s.formula ψ ∧ ψ.boundVariables.length =
        s.formula.boundVariables.length + s.formula.applications.length := by
  have spec := Formula.ensures_eliminateFunctions
    (s := FreshSupply.avoiding s.formula.variableNames) wellFormed
    fun x mem => Formula.mem_variableNames.2 (.inr mem)
  rw [eliminateFunctions, result_rewritten]
  cases result : (s.formula.eliminateFunctions (.avoiding s.formula.variableNames)).1.result with
  | error e => exact (spec.of_error result).elim
  | ok ψ =>
    obtain ⟨eliminated, names, -, length, perm⟩ := spec.of_ok result
    refine ⟨ψ, rfl, eliminated, ?_⟩
    rw [perm.length_eq, List.length_append, length]

/-- A well-formed formula with separated variables has its negations pushed and its quantifiers
moved to the front. -/
theorem exists_prenexForm {leaves : Leaves} (s : Statement)
    (wellFormed : s.formula.WellFormed leaves) (separated : s.formula.Separated) :
    ∃ r, (s.pushNegations >>= fun pushed => pushed.prenexForm).result =
        .ok { s with formula := r } ∧
      Formula.Rewrites s.formula r ∧ Formula.IsNormal leaves.literals r := by
  obtain ⟨ψ, pushing, rewrites, literal⟩ := Formula.exists_pushNegations wellFormed.populated
  obtain ⟨r, form, more, normal⟩ :=
    Formula.exists_prenexForm literal (rewrites.separated separated)
  exact ⟨r, result_prenexForm s pushing form, rewrites.trans more, normal⟩

/-! ## All stages -/

/-- What becomes of a statement whose formula without functions is `ψ`: the normal form of the
standardized formula, or the failure to standardize it. -/
inductive Outcome (leaves : Leaves) (settings : Settings) (s : Statement) (ψ : Formula) :
    Except StageFailure Statement → Prop
  | form {χ r : Formula} (standardized : (ψ.standardize settings).result = .ok χ)
      (rewrites : Formula.Rewrites χ r) (normal : Formula.IsNormal leaves.literals r) :
      Outcome leaves settings s ψ (.ok { s with formula := r })
  | failure {e : NormalizationError} (label : String)
      (failed : (ψ.standardize settings).result = .error e) :
      Outcome leaves settings s ψ (.error ⟨.variableStandardization, label, e⟩)

/-- `Outcome leaves settings s ψ result`: there is a normal form exactly if the formula without
functions can be standardized. -/
theorem Outcome.exists_ok_iff {leaves : Leaves} {ψ : Formula}
    {result : Except StageFailure Statement} (h : Outcome leaves settings s ψ result) :
    (∃ r, result = .ok r) ↔ ∃ χ, (ψ.standardize settings).result = .ok χ := by
  cases h with
  | form standardized => exact ⟨fun _ => ⟨_, standardized⟩, fun _ => ⟨_, rfl⟩⟩
  | failure label failed =>
    constructor
    · rintro ⟨r, same⟩
      cases same
    · rintro ⟨χ, standardized⟩
      rw [failed] at standardized
      cases standardized

/-- `Outcome`: a well-formed formula loses its functions, and then its normal form depends on
whether its variables can be standardized. -/
theorem exists_outcome (valid : s.formula.validate = .ok ())
    (wellFormed : s.formula.WellFormed (.naming allowed)) (settings : Settings) :
    ∃ ψ, Formula.Eliminated allowed s.formula ψ ∧
      ψ.boundVariables.length = s.formula.boundVariables.length + s.formula.applications.length ∧
      Outcome (.functionFree allowed) settings s ψ (s.normalize settings).result := by
  obtain ⟨ψ, found, eliminated, length⟩ := s.exists_eliminateFunctions wellFormed
  refine ⟨ψ, eliminated, length, ?_⟩
  have check : s.validate = .ok () := by rw [Statement.validate, valid]; rfl
  rw [result_normalize, check, found]
  show Outcome _ settings s ψ ((standardize { s with formula := ψ } settings).result >>= _)
  rw [standardize, result_rewritten]
  cases result : (ψ.standardize settings).result with
  | error e => exact .failure _ result
  | ok χ =>
    obtain ⟨standardized, -, -⟩ := Formula.standardized_of_standardize result
    obtain ⟨r, form, rewrites, normal⟩ := exists_prenexForm { s with formula := χ }
      (standardized.wellFormed eliminated.wellFormed) standardized.separated
    show Outcome _ settings s ψ
      (pushNegations { s with formula := χ } >>= fun pushed => pushed.prenexForm).result
    rw [form]
    exact .form result rewrites normal

/-- The outcome for a formula that passes the check, whatever its names are. -/
theorem exists_outcome_of_validate (valid : s.formula.validate = .ok ()) (settings : Settings) :
    ∃ ψ, Formula.Eliminated (fun _ => True) s.formula ψ ∧
      ψ.boundVariables.length = s.formula.boundVariables.length + s.formula.applications.length ∧
      Outcome (.functionFree fun _ => True) settings s ψ (s.normalize settings).result := by
  have wellFormed : s.formula.WellFormed (.naming fun _ => True) :=
    (Formula.validate_eq_ok_iff.1 valid).mono (fun a _ => ⟨trivial, fun p _ => trivial⟩) id
  exact exists_outcome valid wellFormed settings

/-! ## Truth -/

/-- **Normalization keeps the truth.** A normal form has the truth of the formula, in every
structure with a non-empty domain in which the predicates that replace functions are their
graphs. -/
theorem holds_iff_of_normalize (s r : Statement) (settings : Settings)
    (valid : s.formula.validate = .ok ()) (normalized : (s.normalize settings).result = .ok r)
    {D : Type} [Nonempty D] (S : Structure D)
    (graphs : ∀ p ∈ s.formula.applications, S.IsGraph p.1 p.2) (v : Valuation D) :
    s.formula.Holds S v ↔ r.formula.Holds S v := by
  obtain ⟨ψ, eliminated, -, outcome⟩ := exists_outcome_of_validate valid settings
  rw [normalized] at outcome
  cases outcome with
  | @form χ r standardized rewrites _ =>
    obtain ⟨renamed, -, -⟩ := Formula.standardized_of_standardize standardized
    -- Each pass keeps the truth; only the first one needs the graphs.
    calc s.formula.Holds S v
      _ ↔ ψ.Holds S v := (eliminated.holds S v graphs).symm
      _ ↔ χ.Holds S v := renamed.alike.holds
      _ ↔ r.Holds S v := (rewrites.holds S v).symm

/-- The statement `∀(x)[(~A(f(x)) | ∃(x)[B(x,c())])]`. -/
def nestedFunctions : Statement where
  formula := .quantified .universal ["x"] (.connective .or
    [.not (.atom ⟨"A", [.app "f" [.var "x"]]⟩),
      .quantified .existential ["x"] (.atom ⟨"B", [.var "x", .app "c" []]⟩)])

/-- Its normal form `∀(z,y)[∃(x)[∀(w)[(~f(z,y) | ~A(y) | ~c(w) | B(x,w))]]]`. -/
def withoutFunctions : Statement where
  formula := .quantified .universal ["z", "y"] (.quantified .existential ["x"]
    (.quantified .universal ["w"] (.connective .or
      [.not (.atom ⟨"f", [.var "z", .var "y"]⟩), .not (.atom ⟨"A", [.var "y"]⟩),
        .not (.atom ⟨"c", [.var "w"]⟩), .atom ⟨"B", [.var "x", .var "w"]⟩])))

/-- Negation as `f` and truth as `c`, each also as the relation that is its graph. -/
def truthValues : Structure Bool where
  function g args := if g = "f" then args = [false] else true
  relation p args :=
    if p = "f" then args = [false, true] ∨ args = [true, false]
    else if p = "c" then args = [true]
    else args = [true] ∨ args = [false, true]

/-- `nestedFunctions` passes the check. -/
theorem validate_nestedFunctions : nestedFunctions.formula.validate = .ok () := by cbv

set_option maxRecDepth 10000 in
/-- `nestedFunctions` has the normal form `withoutFunctions`. -/
theorem normalize_nestedFunctions :
    (nestedFunctions.normalize {}).result = .ok withoutFunctions :=
  normalize_of_passes (by cbv)

/-- The functions of the statement, each with its number of arguments. -/
theorem applications_nestedFunctions :
    nestedFunctions.formula.applications = [("f", 1), ("c", 0)] := by
  simp [nestedFunctions, Formula.applications, Atom.applications, Term.applications]

/-- `truthValues` has the graphs of the functions of the statement. -/
theorem isGraph_truthValues :
    ∀ p ∈ nestedFunctions.formula.applications, truthValues.IsGraph p.1 p.2 := by
  rw [applications_nestedFunctions, List.forall_mem_cons, List.forall_mem_singleton]
  constructor
  · intro args length b
    obtain ⟨a, rfl⟩ := List.length_eq_one_iff.1 length
    cases a <;> cases b <;> simp [truthValues]
  · intro args length b
    obtain rfl := List.length_eq_zero_iff.1 length
    cases b <;> simp [truthValues]

/-- Over `truthValues` the statement with nested functions has the truth of its normal form. -/
theorem holds_iff_withoutFunctions :
    nestedFunctions.formula.validate = .ok () ∧
      (nestedFunctions.normalize {}).result = .ok withoutFunctions ∧
      (∀ p ∈ nestedFunctions.formula.applications, truthValues.IsGraph p.1 p.2) ∧
      ∀ v, nestedFunctions.formula.Holds truthValues v ↔
        withoutFunctions.formula.Holds truthValues v :=
  ⟨validate_nestedFunctions, normalize_nestedFunctions, isGraph_truthValues, fun v =>
    holds_iff_of_normalize _ _ {} validate_nestedFunctions normalize_nestedFunctions truthValues
      isGraph_truthValues v⟩

/-! ## Shape -/

/-- What a normal form `r` of the formula `φ` looks like. -/
structure IsNormalFormOf (settings : Settings) (φ r : Formula) : Prop where
  /-- Quantifiers stand in front of a conjunction of clauses without functions. -/
  clausal : r.isClausal = true
  /-- No variable is bound twice. -/
  nodup : r.boundVariables.Nodup
  /-- No variable is both bound and free. -/
  apart : ∀ x ∈ r.boundVariables, x ∉ r.freeVariables
  /-- The free variables are those of the formula. -/
  free : ∀ x, x ∈ r.freeVariables ↔ x ∈ φ.freeVariables
  /-- Each quantifier in front binds something. -/
  some : ∀ b ∈ r.blocks, b.bound ≠ []
  /-- The quantifiers in front alternate. -/
  alternating : r.blocks.IsChain fun b c => b.quantifier ≠ c.quantifier
  /-- Under the strict policy each variable of the matrix is bound by exactly one of them. -/
  bound : settings.unbound = .strict → ∀ x ∈ r.matrix.occurrences,
    (r.blocks.countP fun b => x ∈ b.bound) = 1

/-- **The shape of normal forms.** What the passes return for a well-formed formula is a normal form
of it, as `IsNormalFormOf` says. -/
theorem isNormalFormOf_of_normalize (s r : Statement) (settings : Settings)
    (valid : s.formula.validate = .ok ()) (normalized : (s.normalize settings).result = .ok r) :
    IsNormalFormOf settings s.formula r.formula := by
  obtain ⟨ψ, eliminated, -, outcome⟩ := exists_outcome_of_validate valid settings
  rw [normalized] at outcome
  cases outcome with
  | @form χ r standardized rewrites normal =>
    obtain ⟨renamed, closed, -⟩ := Formula.standardized_of_standardize standardized
    have separated := rewrites.separated renamed.separated
    -- No pass changes which variables are free.
    have free : ∀ x, x ∈ r.freeOccurrences ↔ x ∈ s.formula.freeOccurrences := by
      intro x
      rw [(rewrites.within renamed.separated).free, renamed.freeOccurrences_eq, eliminated.free]
    refine ⟨normal.isClausal fun a allowed => allowed.2, separated.nodup, ?_,
      ?_, fun b mem => (normal.binders b mem).some, normal.alternating, ?_⟩
    · intro x mem
      rw [Formula.mem_freeVariables]
      exact separated.apart x mem
    · intro x
      rw [Formula.mem_freeVariables, Formula.mem_freeVariables, free x]
    · -- Under the strict policy no variable is free.
      intro strict x mem
      have nodup := separated.nodup
      rw [normal.boundVariables_eq] at nodup
      apply Formula.countP_blocks nodup
      have none : ψ.freeVariables = [] := by
        rcases closed with permissive | none
        · rw [strict] at permissive
          cases permissive
        · exact none
      refine (normal.free_or_bound mem).resolve_left ?_
      intro isFree
      rw [free, ← eliminated.free, ← Formula.mem_freeVariables, none] at isFree
      cases isFree

/-- `withoutFunctions` is a normal form of the statement with nested functions. -/
theorem isNormalFormOf_withoutFunctions :
    nestedFunctions.formula.validate = .ok () ∧
      (nestedFunctions.normalize {}).result = .ok withoutFunctions ∧
      IsNormalFormOf {} nestedFunctions.formula withoutFunctions.formula :=
  ⟨validate_nestedFunctions, normalize_nestedFunctions,
    isNormalFormOf_of_normalize _ _ {} validate_nestedFunctions normalize_nestedFunctions⟩

/-! ## Success -/

/-- **When there is a normal form.** `s.normalize settings` succeeds exactly if no free variable is
refused and there are enough names for the bound variables and the values of functions. Otherwise
the standardization of variables fails, and its error names the condition that is not met. -/
theorem normalize_succeeds_iff (s : Statement) (settings : Settings)
    (valid : s.formula.validate = .ok ()) :
    ((∃ r, (s.normalize settings).result = .ok r) ↔
      (settings.unbound = .permissive ∨ s.formula.freeVariables = []) ∧
        (settings.naming = .unbounded ∨
          s.formula.boundVariables.length + s.formula.applications.length ≤
            26 - (s.formula.freeVariables.filter fun x => x ∈ letters).length)) ∧
      ∀ f, (s.normalize settings).result = .error f → f.stage = .variableStandardization ∧
        ((∃ x ∈ s.formula.freeVariables, settings.unbound = .strict ∧ f.error = .unbound x) ∨
          (settings.naming = .alphabet ∧
            26 - (s.formula.freeVariables.filter fun x => x ∈ letters).length <
              s.formula.boundVariables.length + s.formula.applications.length ∧
            f.error = .tooManyVariables 26)) := by
  obtain ⟨ψ, eliminated, length, outcome⟩ := exists_outcome_of_validate valid settings
  -- The formula without functions has the same free variables, so the same letters are left.
  have perm := Formula.freeVariables_perm eliminated.free
  have budget := (perm.filter fun x => x ∈ letters).length_eq
  have closed : ψ.freeVariables = [] ↔ s.formula.freeVariables = [] :=
    ⟨fun none => (none ▸ perm).symm.eq_nil, fun none => (none ▸ perm).eq_nil⟩
  constructor
  · rw [outcome.exists_ok_iff, Formula.exists_standardize_iff, closed, budget, length]
    rfl
  · intro f failed
    rw [failed] at outcome
    cases outcome with
    | failure label refused =>
      refine ⟨rfl, ?_⟩
      rcases Formula.of_standardize_eq_error refused with ⟨strict, x, first, same⟩ | exhausted
      · exact .inl ⟨x, perm.mem_iff.1 (List.mem_of_mem_head? first), strict, same⟩
      · rw [budget, length] at exhausted
        exact .inr exhausted

/-- The statement `A(x)`, in which `x` is free. -/
def openAtom : Statement where
  formula := .atom ⟨"A", [.var "x"]⟩

/-- `nestedFunctions` and `openAtom`: four names are enough for two bound variables and two
functions, but the strict policy refuses a free variable. -/
theorem normalize_succeeds_or_refuses :
    nestedFunctions.formula.validate = .ok () ∧ openAtom.formula.validate = .ok () ∧
      (∃ r, (nestedFunctions.normalize .legacy).result = .ok r) ∧
      ¬ ∃ r, (openAtom.normalize {}).result = .ok r := by
  have valid : openAtom.formula.validate = .ok () := by cbv
  refine ⟨validate_nestedFunctions, valid, ?_, ?_⟩
  · apply (normalize_succeeds_iff nestedFunctions .legacy validate_nestedFunctions).1.2
    exact ⟨.inl rfl, .inr (by cbv)⟩
  · intro succeeds
    obtain ⟨permissive | closed, -⟩ := (normalize_succeeds_iff openAtom {} valid).1.1 succeeds
    · cases permissive
    · have listed : openAtom.formula.freeVariables = ["x"] := by cbv
      rw [listed] at closed
      cases closed

end Statement

end ClausalForm
