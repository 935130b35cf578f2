import ClausalForm.Proofs.AlphaElimination
import ClausalForm.Proofs.Normalization

/-! # Names of bound variables do not matter

Statements that are alike up to the names of their bound variables have the same normal form, or
fail at the same stage with the same error. Standardizing erases the last difference between them:
each binding gets a name by its place in the formula.

* **`Formula.AlphaEq.together_standardizeIn`**: formulas that are alike are standardized to the same
  formula.
* **`Statement.normalize_of_alphaEq`**: statements that are alike are normalized together. -/

namespace ClausalForm

/-! ## Atoms -/

/-- `(a.rename m.rename).standardize policy n`: a renamed atom is standardized like the atom, if the
bindings of the new names are those of the variables. -/
theorem Atom.result_standardize_rename {m n k : Renaming} (policy : UnboundPolicy) {a : Atom}
    (composes : m.Composes n k) (recovers : ∀ x ∈ a.occurrences, m.Recovers x) :
    ((a.rename m.rename).standardize policy n).result = (a.standardize policy k).result := by
  have same : (a.rename m.rename).rename n.rename = a.rename k.rename :=
    Atom.rename_rename fun x mem => (composes.rename_eq (recovers x mem)).2
  have refused : ∀ x ∈ a.occurrences, (refuses policy n ∘ m.rename) x = refuses policy k x := by
    intro x mem
    simp only [Function.comp_apply, refuses, (composes.rename_eq (recovers x mem)).1]
  rw [result_standardize, result_standardize, same, occurrences_rename, acceptAll, acceptAll,
    List.find?_map, List.find?_congr refused]
  cases found : a.occurrences.find? (refuses policy k) with
  | none => rfl
  | some x =>
    -- A variable that is refused has no binding, so that its name is the same in both atoms.
    have unbound : x ∉ k.map Prod.fst := by
      have refuse := List.find?_some found
      rw [refuses, decide_eq_true_eq] at refuse
      exact refuse.2
    rw [Option.map_some, composes.rename_of_not_mem unbound]

/-! ## Formulas -/

/-- `nextFor xs = nextFor ys`: names are handed out for the places of a list, whatever stands
there. -/
theorem VariableSupply.nextFor_congr {xs ys : List String} (length : xs.length = ys.length) :
    nextFor xs = nextFor ys := by
  rw [nextFor, nextFor, List.map_const', List.map_const', length]

namespace Formula.AlphaEq

variable {m n k : Renaming} {φ ψ : Formula}

/-- Below bindings that agree place by place, formulas that are alike are standardized to the same
formula, or neither is, with the same error. -/
theorem together_standardizeIn (policy : UnboundPolicy) (h : AlphaEq m φ ψ)
    (composes : m.Composes n k) (s : VariableSupply) :
    (φ.standardizeIn policy k).Together s (ψ.standardizeIn policy n) s
      fun r t r' t' => r = r' ∧ t = t' := by
  -- The bindings of both formulas have the same new names, place by place.
  induction h generalizing n k s with
  | @atom m a recovers =>
    rw [standardizeIn, standardizeIn, Threaded.together_ofRecorded, Recorded.result_map,
      Recorded.result_map, a.result_standardize_rename policy composes recovers]
    exact (Matched.refl _).mono fun _ _ same => ⟨same, rfl⟩
  | not _ ih =>
    rw [standardizeIn, standardizeIn]
    refine Threaded.together_map ((ih composes s).mono fun r t r' t' same => ?_)
    exact ⟨congrArg Formula.not same.1, same.2⟩
  | @connective m op φs ψs length _ ih =>
    rw [standardizeIn, standardizeIn]
    have each : List.Forall₂ (fun x y => ∀ s t, s = t →
        x.Together s y t fun r t r' t' => r = r' ∧ t = t')
        (φs.map (standardizeIn policy k)) (ψs.map (standardizeIn policy n)) := by
      rw [List.forall₂_map_left_iff, List.forall₂_map_right_iff]
      refine forall₂_of_zip length fun p mem s t same => ?_
      subst same
      exact ih p mem composes s
    refine Threaded.together_map ((Threaded.together_inOrder each rfl).mono ?_)
    intro rs t rs' t' same
    exact ⟨congrArg _ (List.forall₂_eq_eq_eq ▸ same.1), same.2⟩
  | @quantified m q xs ys φ ψ length _ ih =>
    have names := Threaded.ensures_length_inOrder (xs.map fun _ => VariableSupply.issue) s
    rw [standardizeIn, standardizeIn, ← VariableSupply.nextFor_congr length]
    refine Threaded.together_bind names.together ?_
    rintro zs t _ _ ⟨rfl, rfl, size⟩
    rw [List.length_map] at size
    have inner := ih (composes.inside length (length.symm.trans size.symm)) t
    refine Threaded.together_map (inner.mono fun r t r' t' same => ?_)
    exact ⟨congrArg (Formula.quantified q zs) same.1, same.2⟩

/-- `φ.standardize settings` and `ψ.standardize settings`: formulas that are alike are standardized
to the same formula, or with the same error. -/
theorem result_standardize_eq (h : AlphaEq [] φ ψ) (settings : Settings) :
    (φ.standardize settings).result = (ψ.standardize settings).result := by
  have free : ψ.freeVariables = φ.freeVariables := by
    rw [freeVariables, freeVariables, h.freeOccurrences_eq_of_nil]
  rw [standardize, standardize, free]
  exact ((h.together_standardizeIn settings.unbound .nil _).mono fun _ _ _ _ => And.left).eq

end Formula.AlphaEq

/-! ## Statements -/

/-- `f.Agrees g`: two failures at one stage with one error. -/
def StageFailure.Agrees (f g : StageFailure) : Prop := f.stage = g.stage ∧ f.error = g.error

namespace Statement

variable {s t : Statement} {settings : Settings}

/-- `s.rewritten stage x` and `t.rewritten stage y`: a stage that rewrites the formulas of two
statements together rewrites the statements together, though their failures name the statements. -/
theorem matched_rewritten {related : Formula → Formula → Prop} (stage : Stage)
    {x y : Recorded NormalizationError Formula} (h : Matched related Eq x.result y.result) :
    Matched (fun s t => related s.formula t.formula) StageFailure.Agrees
      (s.rewritten stage x).result (t.rewritten stage y).result := by
  rw [result_rewritten, result_rewritten]
  generalize x.result = first at h
  generalize y.result = second at h
  cases h with
  | ok related => exact .ok related
  | error same => exact .error ⟨rfl, same⟩

/-- Statements with one formula have their negations pushed and their quantifiers moved alike. -/
theorem matched_prenexForm (same : s.formula = t.formula) :
    Matched (fun r r' => r.formula = r'.formula) StageFailure.Agrees
      (s.pushNegations >>= fun pushed => pushed.prenexForm).result
      (t.pushNegations >>= fun pushed => pushed.prenexForm).result := by
  rw [Recorded.result_bind, Recorded.result_bind, pushNegations, pushNegations, same]
  refine (matched_rewritten .negationPushing (Matched.refl _)).bind fun pushed pushed' same => ?_
  rw [prenexForm, prenexForm, same]
  exact matched_rewritten .prenexing (Matched.refl _)

/-- **Normal forms up to bound names.** Two statements that pass the check and are alike up to the
names of their bound variables have the same normal form, or their normalization fails at the same
stage with the same error. -/
theorem normalize_of_alphaEq (s t : Statement) (settings : Settings)
    (valid : s.formula.validate = .ok ()) (valid' : t.formula.validate = .ok ())
    (alike : Formula.AlphaEq [] s.formula t.formula) :
    Matched (fun r r' => r.formula = r'.formula) StageFailure.Agrees
      (s.normalize settings).result (t.normalize settings).result := by
  have passed : Matched Eq StageFailure.Agrees s.validate t.validate := by
    rw [validate, validate, valid, valid']
    exact .ok rfl
  -- Without functions the formulas are still alike, and standardizing makes them equal.
  have eliminated := alike.together_eliminateFunctions
    (s := .avoiding s.formula.variableNames) (t := .avoiding t.formula.variableNames)
    (fun x mem => Formula.mem_variableNames.2 (.inr mem))
    (fun x mem => Formula.mem_variableNames.2 (.inr mem))
  rw [result_normalize, result_normalize]
  refine passed.bind fun _ _ _ => ?_
  refine (matched_rewritten .functionSubstitution (eliminated.mono fun _ _ _ _ => And.left)).bind
    fun functionFree functionFree' alike => ?_
  have standardized : Matched Eq Eq (functionFree.formula.standardize settings).result
      (functionFree'.formula.standardize settings).result := by
    rw [alike.result_standardize_eq settings]
    exact .refl _
  refine (matched_rewritten .variableStandardization standardized).bind fun _ _ same => ?_
  exact matched_prenexForm same

/-- The statement `∀(f1)[(~A(f(f1)) | ∃(c2)[B(c2,c())])]`, which binds the names that the functions
of the statement with nested functions get. -/
def renamedFunctions : Statement where
  formula := .quantified .universal ["f1"] (.connective .or
    [.not (.atom ⟨"A", [.app "f" [.var "f1"]]⟩),
      .quantified .existential ["c2"] (.atom ⟨"B", [.var "c2", .app "c" []]⟩)])

/-- `AlphaEq []`: it is the statement with nested functions up to the names of the bound
variables. -/
theorem alphaEq_renamedFunctions :
    Formula.AlphaEq [] nestedFunctions.formula renamedFunctions.formula := by
  refine .quantified rfl (.of_members (.cons (.not ?_) (.cons (.quantified rfl ?_) .nil)))
  · have like := Formula.AlphaEq.atom (m := [("x", "f1")]) (a := ⟨"A", [.app "f" [.var "x"]]⟩)
      (by simp [Atom.occurrences, Term.occurrences, Renaming.Recovers, Renaming.inverse,
        Renaming.rename])
    simpa [Atom.rename, Term.rename, Renaming.rename, Renaming.ofPlaces] using like
  · have like := Formula.AlphaEq.atom (m := [("x", "c2"), ("x", "f1")])
      (a := ⟨"B", [.var "x", .app "c" []]⟩)
      (by simp [Atom.occurrences, Term.occurrences, Renaming.Recovers, Renaming.inverse,
        Renaming.rename])
    simpa [Atom.rename, Term.rename, Renaming.rename, Renaming.ofPlaces] using like

/-- With other names for its bound variables the statement with nested functions has the same normal
form. -/
theorem exists_normalize_renamedFunctions :
    nestedFunctions.formula.validate = .ok () ∧ renamedFunctions.formula.validate = .ok () ∧
      Formula.AlphaEq [] nestedFunctions.formula renamedFunctions.formula ∧
      ∃ r, (renamedFunctions.normalize {}).result = .ok r ∧
        withoutFunctions.formula = r.formula := by
  have valid : renamedFunctions.formula.validate = .ok () := by cbv
  have together := normalize_of_alphaEq nestedFunctions renamedFunctions {}
    validate_nestedFunctions valid alphaEq_renamedFunctions
  rw [normalize_nestedFunctions] at together
  refine ⟨validate_nestedFunctions, valid, alphaEq_renamedFunctions, ?_⟩
  generalize (renamedFunctions.normalize {}).result = result at together
  cases together with
  | ok same => exact ⟨_, rfl, same⟩

end Statement

end ClausalForm
