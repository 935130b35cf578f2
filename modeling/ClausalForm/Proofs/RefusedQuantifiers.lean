import ClausalForm.Proofs.MixedConjuncts

/-! # Quantifiers refused by the conjunctive normal form

A quantifier below a connective belongs to no matrix, and one that is met on the way to the
conjunctive normal form is refused. A quantifier in a negation is not met if the negation is pushed
down in a member of a connective that is not distributed afterwards: then it is left where it is,
and the result is not in conjunctive normal form.

* **`Formula.Converts`**: a formula has conjuncts, or a quantifier is refused.
* **`Formula.converts_connective`**, **`Formula.converts_conjuncts`**: all well-formed formulas.
* **`Formula.conjunctiveForm_refuses_iff`**: when a quantifier is refused, and what is returned
  otherwise. -/

namespace ClausalForm.Formula

variable {leaves : Leaves} {op : Connective} {φ : Formula} {φs : List Formula}
  {settle : Formula → Except NormalizationError Conjuncts}

/-- `Converts φ result`: the result of looking for the conjuncts of a formula. A quantifier that is
met is refused, and otherwise there are conjuncts. -/
structure Converts (φ : Formula) (result : Except NormalizationError Conjuncts) : Prop where
  refused : φ.MeetsQuantifier → ∃ e, result = .error e ∧ e.RefusesQuantifier
  accepted : ¬ φ.MeetsQuantifier → ∃ css, result = .ok css ∧ HasParts φ css

/-- `Converts φ (.ok [[φ]])`: a literal is its own conjunct. -/
theorem converts_literal (literal : φ.isLiteral = true) : Converts φ (.ok [[φ]]) := by
  refine ⟨fun met => ?_, fun _ => ⟨_, rfl, hasParts_literal literal⟩⟩
  exact absurd met.hasInnerQuantifier
    (not_hasInnerQuantifier (quantifierCount_of_isLiteral literal))

/-! ## Connectives -/

/-- `memberConjuncts settle φ`: what a member of a connective comes to. A quantifier is refused, or
one that is met in it. -/
def memberConjuncts (settle : Formula → Except NormalizationError Conjuncts) (φ : Formula) :
    Except NormalizationError Conjuncts :=
  if φ.isQuantified then .error (.malformed (.quantifierInMatrix φ)) else φ.conjunctsWith settle

/-- `(connective op φs).conjunctsWith settle`: the conjuncts of a connective come from those of its
members. -/
theorem conjunctsWith_connective : (Formula.connective op φs).conjunctsWith settle =
    (inOrder (φs.map (memberConjuncts settle)) >>= fun parts =>
      match op with
      | .and => nonemptyMembers .and parts.flatten
      | .or => nonemptyMembers .or (parts.flatMap disjunctsOf) >>= distributeDisjuncts) := by
  rw [conjunctsWith]
  rfl

/-- `memberConjuncts settle φ`: a member is refused if it is a quantifier or meets one, and has
parts otherwise. -/
theorem memberConjuncts_cases (h : Converts φ (φ.conjunctsWith settle)) :
    ((φ.isQuantified = true ∨ φ.MeetsQuantifier) ∧
        ∃ e, memberConjuncts settle φ = .error e ∧ e.RefusesQuantifier) ∨
      (φ.isQuantified = false ∧ ¬ φ.MeetsQuantifier) ∧
        ∃ css, memberConjuncts settle φ = .ok css ∧ HasParts φ css := by
  by_cases quantified : φ.isQuantified = true
  · rw [memberConjuncts, if_pos quantified]
    exact .inl ⟨.inl quantified, _, rfl, φ, quantified, rfl⟩
  · rw [memberConjuncts, if_neg quantified]
    by_cases met : φ.MeetsQuantifier
    · exact .inl ⟨.inr met, h.refused met⟩
    · exact .inr ⟨⟨Bool.eq_false_of_not_eq_true quantified, met⟩, h.accepted met⟩

/-- `inOrder (φs.map (memberConjuncts settle))`: members are refused if one of them is, and
otherwise have parts. -/
theorem inOrder_memberConjuncts (each : ∀ φ ∈ φs, Converts φ (φ.conjunctsWith settle)) :
    ((∃ φ ∈ φs, φ.isQuantified = true ∨ φ.MeetsQuantifier) →
        ∃ e, inOrder (φs.map (memberConjuncts settle)) = .error e ∧ e.RefusesQuantifier) ∧
      ((¬ ∃ φ ∈ φs, φ.isQuantified = true ∨ φ.MeetsQuantifier) →
        ∃ parts, inOrder (φs.map (memberConjuncts settle)) = .ok parts ∧
          List.Forall₂ HasParts φs parts) := by
  constructor
  · rintro ⟨φ, mem, met⟩
    cases result : inOrder (φs.map (memberConjuncts settle)) with
    | ok parts =>
      obtain ⟨css, found⟩ := exists_inOrder_map_iff.1 ⟨parts, result⟩ φ mem
      rcases memberConjuncts_cases (each φ mem) with ⟨_, e, failed, _⟩ | ⟨unmet, _⟩
      · rw [found] at failed
        cases failed
      · rw [unmet.1] at met
        exact absurd (met.resolve_left (fun h => nomatch h)) unmet.2
    | error e =>
      -- The error is that of some member, which need not be this one.
      obtain ⟨ψ, hψ, failed⟩ := exists_of_inOrder_map_eq_error result
      rcases memberConjuncts_cases (each ψ hψ) with ⟨_, e', failed', refuses⟩ | ⟨_, css, found, _⟩
      · rw [failed] at failed'
        cases failed'
        exact ⟨e, rfl, refuses⟩
      · rw [failed] at found
        cases found
  · intro unmet
    refine exists_inOrder_map fun φ mem => ?_
    rcases memberConjuncts_cases (each φ mem) with ⟨met, _⟩ | ⟨_, found⟩
    · exact absurd ⟨φ, mem, met⟩ unmet
    · exact found

/-- A connective is converted if its members are. -/
theorem converts_connective (two : 2 ≤ φs.length)
    (each : ∀ φ ∈ φs, Converts φ (φ.conjunctsWith settle)) :
    Converts (.connective op φs) ((Formula.connective op φs).conjunctsWith settle) := by
  rw [conjunctsWith_connective]
  obtain ⟨refused, accepted⟩ := inOrder_memberConjuncts each
  -- Either a member is refused, or all are converted and only the distribution can fail.
  by_cases met : ∃ φ ∈ φs, φ.isQuantified = true ∨ φ.MeetsQuantifier
  · obtain ⟨e, failed, refuses⟩ := refused met
    rw [failed]
    refine ⟨fun _ => ⟨e, rfl, refuses⟩, fun unmet => ?_⟩
    exact absurd (meetsQuantifier_connective.2 (.inl met)) unmet
  · obtain ⟨parts, found, all⟩ := accepted met
    have meets : (Formula.connective op φs).MeetsQuantifier ↔
        op = .or ∧ totalCount φs ≠ 0 ∧ ∃ φ ∈ φs, φ.hasConjunction true = true :=
      meetsQuantifier_connective.trans (or_iff_right met)
    rw [found]
    cases op with
    | and =>
      have spec := hasParts_and all two
      refine ⟨fun h => (nomatch (meets.1 h).1), fun _ => ⟨_, ?_, spec⟩⟩
      exact nonemptyMembers_of_ne_nil .and spec.mixed.some
    | or =>
      have members := nonemptyMembers_of_ne_nil .or (disjuncts_ne_nil all two)
      show Converts _ (nonemptyMembers .or (parts.flatMap disjunctsOf) >>= distributeDisjuncts)
      rw [members]
      constructor
      · intro h
        obtain ⟨-, some, conjunction⟩ := meets.1 h
        exact distributeDisjuncts_refuses_members all two some conjunction
      · intro unmet
        -- Without a conjunction nothing is distributed, and quantifiers among the disjuncts are
        -- kept.
        by_cases conjunction : ∃ φ ∈ φs, φ.hasConjunction true = true
        · have none : totalCount φs = 0 := by
            by_contra some
            exact unmet (meets.2 ⟨rfl, some, conjunction⟩)
          exact exists_hasParts_of_conjunction all two none conjunction
        · exact exists_hasParts_of_simple all two conjunction

/-! ## All formulas -/

/-- Every well-formed formula is converted, if the negations of compound formulas are. -/
theorem converts_conjunctsWith (settles : leaves.compound → ∀ φ : Formula, φ.WellFormed leaves →
    Converts (.not φ) (settle (.not φ))) (h : φ.WellFormed leaves) :
    Converts φ (φ.conjunctsWith settle) := by
  induction h with
  | atom =>
    rw [conjunctsWith]
    exact converts_literal rfl
  | @not φ allowed body _ =>
    rw [conjunctsWith]
    by_cases atomic : φ.isAtom = true
    · rw [if_pos atomic]
      exact converts_literal atomic
    · rw [if_neg atomic]
      exact settles (allowed.resolve_left atomic) φ body
  | connective two _ _ ih => exact converts_connective two ih
  | @quantified q xs φ _ _ ih =>
    rw [conjunctsWith]
    constructor
    · intro met
      obtain ⟨e, failed, refuses⟩ := ih.refused (meetsQuantifier_quantified.1 met)
      exact ⟨e, bind_eq_error_iff.2 (.inl failed), refuses⟩
    · intro unmet
      obtain ⟨css, found, spec⟩ := ih.accepted fun met => unmet (.body met)
      exact ⟨_, bind_eq_ok_iff.2 ⟨css, found, rfl⟩, spec.quantified⟩

/-- `(not φ).negationForm true`: what a negation is pushed down to may be converted in its place. -/
theorem Converts.of_negationForm {result : Except NormalizationError Conjuncts}
    (h : φ.WellFormed leaves)
    (literal : ((Formula.not φ).negationForm true).WellFormed leaves.literals)
    (converts : Converts ((Formula.not φ).negationForm true) result) :
    Converts (.not φ) result := by
  have inner : ((Formula.not φ).negationForm true).HasInnerQuantifier ↔
      (Formula.not φ).HasInnerQuantifier := by
    rw [negationForm, hasInnerQuantifier_negationForm h, hasInnerQuantifier_not]
  have meets : ((Formula.not φ).negationForm true).MeetsQuantifier ↔
      (Formula.not φ).MeetsQuantifier := by
    rw [meetsQuantifier_iff literal, inner, meetsQuantifier_not, hasInnerQuantifier_not]
  refine ⟨fun met => converts.refused (meets.2 met), fun unmet => ?_⟩
  obtain ⟨css, found, spec⟩ := converts.accepted fun met => unmet (meets.1 met)
  refine ⟨css, found, spec.mixed, ?_, ?_, spec.normal.trans (not_congr inner)⟩
  · rw [spec.quantifier, quantifierCount_negationForm]
  · rw [spec.several, negationForm, hasConjunction_negationForm h, hasConjunction]

/-- `Converts φ φ.conjuncts`: every well-formed formula is converted. -/
theorem converts_conjuncts (h : φ.WellFormed leaves) : Converts φ φ.conjuncts := by
  refine converts_conjunctsWith (fun compound φ wellFormed => ?_) h
  obtain ⟨pushing, literal⟩ :=
    pushed_eq_negationForm (.not (.inr compound) wellFormed.populated) true
  rw [pushNegations_eq_pushed, pushing]
  -- In negation normal form there is no other negation to push down.
  exact .of_negationForm wellFormed literal
    (converts_conjunctsWith (fun compound => False.elim compound) literal)

/-! ## The form -/

/-- **When quantifiers are refused.** `φ.conjunctiveForm` of a formula that passes `validate` is
refused exactly if a quantifier is met, which is then reported. Otherwise there is a result, and all
of its nodes are in conjunctive normal form exactly if no quantifier stands below a connective. -/
theorem conjunctiveForm_refuses_iff (φ : Formula) (valid : φ.validate = .ok ()) :
    ((∃ χ : Formula, χ.isQuantified = true ∧
        φ.conjunctiveForm = .error (.malformed (.quantifierInMatrix χ))) ↔ φ.MeetsQuantifier) ∧
      (φ.MeetsQuantifier → φ.HasInnerQuantifier) ∧
      (¬ φ.MeetsQuantifier → ∃ r, φ.conjunctiveForm = .ok r ∧
        ((∀ ψ ∈ r.subformulas, ψ.isLocallyNormal = true) ↔ ¬ φ.HasInnerQuantifier)) := by
  have converts := converts_conjuncts (validate_eq_ok_iff.1 valid)
  have accepted : ¬ φ.MeetsQuantifier → ∃ r, φ.conjunctiveForm = .ok r ∧
      ((∀ ψ ∈ r.subformulas, ψ.isLocallyNormal = true) ↔ ¬ φ.HasInnerQuantifier) := by
    intro unmet
    obtain ⟨css, found, spec⟩ := converts.accepted unmet
    exact ⟨ofConjuncts css, map_eq_ok_iff.2 ⟨css, found, rfl⟩, spec.normal⟩
  refine ⟨⟨?_, ?_⟩, MeetsQuantifier.hasInnerQuantifier, accepted⟩
  · rintro ⟨χ, -, failed⟩
    by_contra unmet
    obtain ⟨r, found, -⟩ := accepted unmet
    rw [failed] at found
    cases found
  · intro met
    obtain ⟨e, failed, χ, quantified, rfl⟩ := converts.refused met
    exact ⟨χ, quantified, map_eq_error_iff.2 failed⟩

/-- The negated quantifier `~∀(x)[A(x)]` as a member of a connective with another formula. -/
def besideNegation (op : Connective) (φ : Formula) : Formula :=
  .connective op [.not (.quantified .universal ["x"] (.atom ⟨"A", [.var "x"]⟩)), φ]

/-- The negated quantifier in `(~∀(x)[A(x)] | (B(y) & C()))` is met when the disjunction is
distributed, and refused. -/
theorem negated_quantifier_refused :
    (besideNegation .or (.connective .and [.atom ⟨"B", [.var "y"]⟩, .atom ⟨"C", []⟩])).validate =
        .ok () ∧
      ∃ χ : Formula, χ.isQuantified = true ∧
        (besideNegation .or
          (.connective .and [.atom ⟨"B", [.var "y"]⟩, .atom ⟨"C", []⟩])).conjunctiveForm =
            .error (.malformed (.quantifierInMatrix χ)) := by
  have valid : (besideNegation .or
      (.connective .and [.atom ⟨"B", [.var "y"]⟩, .atom ⟨"C", []⟩])).validate = .ok () := by cbv
  have met : (besideNegation .or
      (.connective .and [.atom ⟨"B", [.var "y"]⟩, .atom ⟨"C", []⟩])).MeetsQuantifier :=
    .distributed List.mem_cons_self (by simp [quantifierCount])
      (List.mem_cons_of_mem _ List.mem_cons_self) (hasConjunction_connective.2 (.inl rfl))
  exact ⟨valid, (conjunctiveForm_refuses_iff _ valid).1.2 met⟩

/-- The negated quantifier in `(~∀(x)[A(x)] & B(y))` is not met: it stands in the conjunction
`(∃(x)[~A(x)] & B(y))` that is returned. -/
theorem negated_quantifier_passed_over :
    (besideNegation .and (.atom ⟨"B", [.var "y"]⟩)).validate = .ok () ∧
      (besideNegation .and (.atom ⟨"B", [.var "y"]⟩)).HasInnerQuantifier ∧
      (besideNegation .and (.atom ⟨"B", [.var "y"]⟩)).conjunctiveForm =
        .ok (.connective .and [.quantified .existential ["x"] (.not (.atom ⟨"A", [.var "x"]⟩)),
          .atom ⟨"B", [.var "y"]⟩]) ∧
      (Formula.connective .and [.quantified .existential ["x"] (.not (.atom ⟨"A", [.var "x"]⟩)),
        .atom ⟨"B", [.var "y"]⟩]).isLocallyNormal = false := by
  refine ⟨by cbv, hasInnerQuantifier_connective.2 (by simp [quantifierCount]), by cbv, ?_⟩
  exact isLocallyNormal_of_isQuantified List.mem_cons_self rfl

end ClausalForm.Formula
