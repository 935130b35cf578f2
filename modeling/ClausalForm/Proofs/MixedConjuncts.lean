import ClausalForm.Proofs.InnerQuantifiers

/-! # Conjuncts with quantifiers

Conjuncts whose parts are literals and quantifiers. A disjunction in which there is a quantifier is
not distributed over a conjunction; without conjunctions it is left as it is.

* **`Conjuncts.IsMixed`**: clauses of literals and quantifiers.
* **`Formula.distributeDisjuncts_refuses`**: distributing meets every quantifier.
* **`Formula.isLocallyNormal_ofConjuncts_iff`**: when the form is in conjunctive normal form.
* **`Formula.HasParts`**: mixed conjuncts of a formula.
* **`Formula.hasParts_and`**, **`Formula.exists_hasParts_of_conjunction`**,
  **`Formula.exists_hasParts_of_simple`**: the conjuncts of connectives. -/

namespace ClausalForm

/-- `e.RefusesQuantifier`: the error is about a quantifier inside of the matrix. -/
def NormalizationError.RefusesQuantifier (e : NormalizationError) : Prop :=
  ∃ φ : Formula, φ.isQuantified = true ∧ e = .malformed (.quantifierInMatrix φ)

/-- `Conjuncts.IsMixed css`: some clauses, each of some literals and quantifiers. -/
structure Conjuncts.IsMixed (css : Conjuncts) : Prop where
  some : css ≠ []
  clause : ∀ c ∈ css, c ≠ []
  part : ∀ c ∈ css, ∀ φ ∈ c, φ.isLiteral = true ∨ φ.isQuantified = true

/-- `Conjuncts.HasQuantifier css`: some part is a quantifier. -/
def Conjuncts.HasQuantifier (css : Conjuncts) : Prop := css.Contains fun φ => φ.isQuantified = true

namespace Formula

variable {leaves : Leaves} {op : Connective} {q : Quantifier} {xs : List String} {φ ψ χ : Formula}
  {φs c : List Formula} {css : Conjuncts} {parts : List Conjuncts} {d : Disjunct}
  {ds others : List Disjunct} {e : NormalizationError}

/-! ## Distributing -/

/-- `refuseQuantifiers ds = .error e`: disjuncts that are not let through contain the quantifier
that is reported. -/
theorem refusesQuantifier_of_refuseQuantifiers (failed : refuseQuantifiers ds = .error e) :
    e.RefusesQuantifier := by
  unfold refuseQuantifiers at failed
  split at failed
  · next φ found =>
    cases failed
    exact ⟨φ, List.find?_some found, rfl⟩
  · cases failed

/-- `distributeDisjuncts ds = .error e`: distributing fails because of a quantifier only. -/
theorem refusesQuantifier_of_distributeDisjuncts (failed : distributeDisjuncts ds = .error e) :
    e.RefusesQuantifier := by
  fun_induction distributeDisjuncts ds with
  | case1 => cases failed
  | case2 => cases failed
  | case3 ds css other others _ ih =>
    rcases bind_eq_error_iff.1 failed with refused | ⟨parts, _, returned⟩
    · obtain ⟨c, _, refused⟩ := exists_of_inOrder_map_eq_error refused
      -- The disjuncts are refused at once, or when they are distributed further.
      rcases bind_eq_error_iff.1 refused with here | ⟨_, _, later⟩
      · exact refusesQuantifier_of_refuseQuantifiers here
      · exact ih c later
    · cases returned

/-- `distributed others c`: distributing brings in no conjunction and leaves none out. -/
theorem conjunction_mem_distributed :
    .conjunction css ∈ distributed others c ↔ .conjunction css ∈ others := by
  simp [distributed]

/-- `cs.length ≤ css.length`: a disjunction has at least as many conjuncts as each of its
disjuncts. -/
theorem length_le_of_distributeDisjuncts (found : distributeDisjuncts ds = .ok css)
    (some : ∀ cs, .conjunction cs ∈ ds → cs ≠ []) :
    css ≠ [] ∧ ∀ cs, .conjunction cs ∈ ds → cs.length ≤ css.length := by
  fun_induction distributeDisjuncts ds generalizing css with
  | case1 ds none =>
    obtain ⟨φs, rfl⟩ := takeConjunction_eq_none none
    cases found
    exact ⟨List.cons_ne_nil _ _, fun cs mem => by simp at mem⟩
  | case2 ds cs taken =>
    obtain rfl := List.perm_singleton.1 (takeConjunction_perm taken)
    cases found
    refine ⟨some cs List.mem_cons_self, fun cs' mem => ?_⟩
    cases List.mem_singleton.1 mem
    exact Nat.le_refl _
  | case3 ds first other others taken ih =>
    have perm := takeConjunction_perm taken
    obtain ⟨parts, results, returned⟩ := bind_eq_ok_iff.1 found
    cases returned
    have all : List.Forall₂ (fun _ part => part ≠ [] ∧
        ∀ cs, .conjunction cs ∈ other :: others → cs.length ≤ part.length) first parts := by
      refine (inOrder_map_eq_ok.1 results).imp fun c part result => ?_
      obtain ⟨_, _, later⟩ := bind_eq_ok_iff.1 result
      have spec := ih c later fun cs mem =>
        some cs (perm.mem_iff.2 (List.mem_cons_of_mem _ (conjunction_mem_distributed.1 mem)))
      exact ⟨spec.1, fun cs mem => spec.2 cs (conjunction_mem_distributed.2 mem)⟩
    have each := forall_right_of_forall₂ all fun _ _ h => h
    have inhabited := some first (perm.mem_iff.2 List.mem_cons_self)
    obtain ⟨part, mem⟩ := List.exists_mem_of_ne_nil parts (ne_nil_of_forall₂ all inhabited)
    have le : part.length ≤ parts.flatten.length := (List.sublist_flatten_of_mem mem).length_le
    refine ⟨fun none => ?_, fun cs hcs => ?_⟩
    · exact (each part mem).1 (List.flatten_eq_nil_iff.1 none part mem)
    · rcases List.mem_cons.1 (perm.mem_iff.1 hcs) with same | other
      · -- Each conjunct of the conjunction taken out gives one at least.
        cases same
        rw [all.length_eq, List.flatten_eq_flatMap]
        exact length_le_length_flatMap fun part mem => (each part mem).1
      · exact Nat.le_trans ((each part mem).2 cs other) le

/-- `distributeDisjuncts ds`: several disjuncts, one of them a conjunction, cannot be distributed if
one of them contains a quantifier. -/
theorem distributeDisjuncts_refuses (two : 2 ≤ ds.length) (conjunction : .conjunction css ∈ ds)
    (some : ∀ cs, .conjunction cs ∈ ds → cs ≠ [])
    (quantified : ∃ d ∈ ds, d.Contains fun φ => φ.isQuantified = true) :
    ∃ e, distributeDisjuncts ds = .error e ∧ e.RefusesQuantifier := by
  cases result : distributeDisjuncts ds with
  | error e => exact ⟨e, rfl, refusesQuantifier_of_distributeDisjuncts result⟩
  | ok found =>
    rw [distributeDisjuncts] at result
    split at result
    · next none =>
      obtain ⟨φs, rfl⟩ := takeConjunction_eq_none none
      simp at conjunction
    · next taken =>
      rw [(takeConjunction_perm taken).length_eq, List.length_singleton] at two
      omega
    · next first other others taken =>
      have perm := takeConjunction_perm taken
      obtain ⟨parts, results, -⟩ := bind_eq_ok_iff.1 result
      have passed : ∀ c ∈ first, ∀ d ∈ distributed (other :: others) c,
          ¬ d.Contains fun φ => φ.isQuantified = true := by
        intro c mem
        obtain ⟨part, found⟩ := exists_inOrder_map_iff.1 ⟨parts, results⟩ c mem
        obtain ⟨_, passed, -⟩ := bind_eq_ok_iff.1 found
        exact refuseQuantifiers_eq_ok_iff.1 passed
      -- Every disjunct is looked at together with some conjunct of the first conjunction.
      obtain ⟨d, hd, contains⟩ := quantified
      rcases List.mem_cons.1 (perm.mem_iff.1 hd) with rfl | mem
      · obtain ⟨c, hc, φ, hφ, quantified⟩ := contains
        exact absurd quantified
          (passed c hc (.simple φ) (List.mem_append_right _ (List.mem_map_of_mem hφ)))
      · obtain ⟨c, hc⟩ := List.exists_mem_of_ne_nil first
          (some first (perm.mem_iff.2 List.mem_cons_self))
        exact absurd contains (passed c hc d (List.mem_append_left _ (List.mem_reverse.2 mem)))

/-- `Conjuncts.IsMixed parts.flatten`: lists of mixed conjuncts are mixed together, if there are
any. -/
theorem isMixed_flatten (some : parts ≠ []) (mixed : ∀ cs ∈ parts, Conjuncts.IsMixed cs) :
    Conjuncts.IsMixed parts.flatten := by
  refine ⟨fun none => ?_, fun c mem => ?_, fun c mem => ?_⟩
  · obtain ⟨cs, mem⟩ := List.exists_mem_of_ne_nil parts some
    exact (mixed cs mem).some (List.flatten_eq_nil_iff.1 none cs mem)
  · obtain ⟨cs, hcs, hc⟩ := List.mem_flatten.1 mem
    exact (mixed cs hcs).clause c hc
  · obtain ⟨cs, hcs, hc⟩ := List.mem_flatten.1 mem
    exact (mixed cs hcs).part c hc

/-! ## Nodes of the form -/

/-- `(connective op φs).isLocallyNormal = false`: a connective with a quantifier as a member is not
in conjunctive normal form. -/
theorem isLocallyNormal_of_isQuantified (mem : χ ∈ φs) (quantified : χ.isQuantified = true) :
    (Formula.connective op φs).isLocallyNormal = false := by
  cases op with
  | and =>
    rw [isLocallyNormal, List.all_eq_false]
    exact ⟨χ, mem, by simp [quantified]⟩
  | or =>
    rw [isLocallyNormal, List.all_eq_false]
    exact ⟨χ, mem, by simp [quantified]⟩

/-- `φ.IsClause`: all nodes of a clause are in conjunctive normal form. -/
theorem IsClause.isLocallyNormal (h : φ.IsClause) :
    ∀ ψ ∈ φ.subformulas, ψ.isLocallyNormal = true := by
  -- A literal has itself and its atom below it.
  have single : ∀ χ : Formula, χ.isLiteral = true →
      ∀ ψ ∈ χ.subformulas, ψ.isLocallyNormal = true := by
    intro χ literal ψ mem
    cases χ with
    | atom a =>
      rw [mem_subformulas_atom.1 mem, Formula.isLocallyNormal]
    | not χ =>
      cases χ with
      | atom a =>
        rw [mem_subformulas_not, mem_subformulas_atom] at mem
        rcases mem with rfl | rfl <;> rw [Formula.isLocallyNormal]
        rfl
      | _ => cases literal
    | _ => cases literal
  cases h with
  | literal literal => exact single φ literal
  | @disjunction φs _ literals =>
    refine forall_mem_subformulas_connective.2 ⟨?_, fun φ mem => single φ (literals φ mem)⟩
    rw [Formula.isLocallyNormal, List.all_eq_true]
    intro φ mem
    simp [isQuantified_of_isLiteral (literals φ mem), isConnective_of_isLiteral (literals φ mem)]

/-- A clause is neither a quantifier nor a conjunction. -/
theorem IsClause.not_quantified_not_conjunction (h : φ.IsClause) :
    φ.isQuantified = false ∧ φ.isConnective .and = false := by
  cases h with
  | literal literal =>
    exact ⟨isQuantified_of_isLiteral literal, isConnective_of_isLiteral literal _⟩
  | disjunction => exact ⟨rfl, rfl⟩

/-- `φ.IsConjunctiveForm`: all nodes of a conjunction of clauses are in conjunctive normal form. -/
theorem IsConjunctiveForm.isLocallyNormal (h : φ.IsConjunctiveForm) :
    ∀ ψ ∈ φ.subformulas, ψ.isLocallyNormal = true := by
  cases h with
  | clause clause => exact clause.isLocallyNormal
  | @conjunction φs _ clauses =>
    refine forall_mem_subformulas_connective.2
      ⟨?_, fun φ mem => (clauses φ mem).isLocallyNormal⟩
    rw [Formula.isLocallyNormal, List.all_eq_true]
    intro φ mem
    have plain := (clauses φ mem).not_quantified_not_conjunction
    simp [plain.1, plain.2]

/-- A literal is well-formed whatever its names are. -/
theorem wellFormed_of_isLiteral (literal : φ.isLiteral = true) :
    φ.WellFormed (.naming fun _ => True) := by
  cases φ with
  | atom a => exact .atom ⟨trivial, fun _ _ => trivial⟩
  | not φ =>
    cases φ with
    | atom a => exact .not (.inl rfl) (.atom ⟨trivial, fun _ _ => trivial⟩)
    | _ => cases literal
  | _ => cases literal

/-- `Conjuncts.IsProper`: without quantifiers the clauses consist of literals. -/
theorem isProper_of_isMixed (mixed : css.IsMixed) (none : ¬ css.HasQuantifier) :
    Conjuncts.IsProper (.naming fun _ => True) css := by
  refine ⟨mixed.some, mixed.clause, fun c hc φ hφ => ?_⟩
  have literal := (mixed.part c hc φ hφ).resolve_right fun quantified =>
    none ⟨c, hc, φ, hφ, quantified⟩
  exact ⟨literal, wellFormed_of_isLiteral literal⟩

/-- The only element of a list that does not have two. -/
theorem eq_singleton_of_mem {α : Type} {a : α} {as : List α} (mem : a ∈ as)
    (single : ¬ 2 ≤ as.length) : as = [a] := by
  match as with
  | [b] => rw [List.mem_singleton.1 mem]
  | _ :: _ :: _ => exact absurd (by simp) single

/-- `connective op ψs ∈ (ofConjuncts css).subformulas`: if there are several parts, a part of the
form is a member of a connective. -/
theorem exists_connective_of_mem (two : 2 ≤ css.flatten.length) (hc : c ∈ css) (hφ : φ ∈ c) :
    ∃ op ψs, .connective op ψs ∈ (ofConjuncts css).subformulas ∧ φ ∈ ψs := by
  by_cases several : 2 ≤ css.length
  · -- The conjuncts are the members of a conjunction.
    have root : ofConjuncts css = .connective .and (css.map (joined .or)) :=
      joined_of_two (by rwa [List.length_map])
    rw [root]
    have member : joined .or c ∈ css.map (joined .or) := List.mem_map_of_mem hc
    by_cases wide : 2 ≤ c.length
    · rw [joined_of_two wide] at member
      exact ⟨.or, c, mem_subformulas_connective.2
        (.inr ⟨_, member, mem_subformulas_self _⟩), hφ⟩
    · rw [eq_singleton_of_mem hφ wide] at member
      exact ⟨.and, _, mem_subformulas_self _, member⟩
  · obtain rfl := eq_singleton_of_mem hc several
    rw [List.flatten_singleton] at two
    have root : ofConjuncts [c] = .connective .or c := joined_of_two two
    rw [root]
    exact ⟨.or, c, mem_subformulas_self _, hφ⟩

/-- `isLocallyNormal` of the form: if there are several parts, it is in conjunctive normal form
exactly if none of them is a quantifier. -/
theorem isLocallyNormal_ofConjuncts_iff (mixed : css.IsMixed) (two : 2 ≤ css.flatten.length) :
    (∀ ψ ∈ (ofConjuncts css).subformulas, ψ.isLocallyNormal = true) ↔ ¬ css.HasQuantifier := by
  constructor
  · rintro normal ⟨c, hc, χ, hχ, quantified⟩
    obtain ⟨op, ψs, mem, member⟩ := exists_connective_of_mem two hc hχ
    have root := normal _ mem
    rw [isLocallyNormal_of_isQuantified member quantified] at root
    cases root
  · intro none
    exact (isConjunctiveForm_ofConjuncts (isProper_of_isMixed mixed none)).isLocallyNormal

/-! ## Conjuncts with quantifiers -/

/-- `HasParts φ css`: conjuncts of a formula that may have quantifiers among their parts. -/
structure HasParts (φ : Formula) (css : Conjuncts) : Prop where
  mixed : css.IsMixed
  quantifier : css.HasQuantifier ↔ φ.quantifierCount ≠ 0
  several : 2 ≤ css.length ↔ φ.hasConjunction true = true
  normal : (∀ ψ ∈ (ofConjuncts css).subformulas, ψ.isLocallyNormal = true) ↔
    ¬ φ.HasInnerQuantifier

/-- `HasParts φ [[φ]]`: a literal is its only part. -/
theorem hasParts_literal (literal : φ.isLiteral = true) : HasParts φ [[φ]] := by
  have none := quantifierCount_of_isLiteral literal
  have single := hasConjunction_of_isLiteral literal true
  refine ⟨⟨List.cons_ne_nil _ _, by simp, by simp [literal]⟩, ?_, ?_, ?_⟩
  · rw [none]
    simp [Conjuncts.HasQuantifier, Conjuncts.Contains, isQuantified_of_isLiteral literal]
  · rw [single]
    simp
  · exact iff_of_true (IsConjunctiveForm.clause (.literal literal)).isLocallyNormal
      (not_hasInnerQuantifier none)

/-- `HasParts` for a quantifier: the quantifier over the form of its body is its only part. -/
theorem HasParts.quantified (h : HasParts φ css) :
    HasParts (.quantified q xs φ) [[.quantified q xs (ofConjuncts css)]] := by
  refine ⟨⟨List.cons_ne_nil _ _, by simp, by simp [isQuantified]⟩, ?_, ?_, ?_⟩
  · simp [Conjuncts.HasQuantifier, Conjuncts.Contains, isQuantified, quantifierCount]
  · simp [hasConjunction]
  · -- A quantifier is judged by its body.
    rw [hasInnerQuantifier_quantified, ← h.normal]
    show (∀ ψ ∈ (Formula.quantified q xs (ofConjuncts css)).subformulas, _) ↔ _
    rw [subformulas, List.forall_mem_cons, isLocallyNormal]
    exact and_iff_right_of_imp fun each => each _ (mem_subformulas_self _)

/-- `HasParts (connective op φs) css`: several parts that have a quantifier if the members have are
parts of the connective. -/
theorem hasParts_connective (mixed : css.IsMixed) (two : 2 ≤ css.flatten.length)
    (quantifier : css.HasQuantifier ↔ totalCount φs ≠ 0)
    (several : 2 ≤ css.length ↔ (Formula.connective op φs).hasConjunction true = true) :
    HasParts (.connective op φs) css := by
  refine ⟨mixed, by rwa [quantifierCount_connective], several, ?_⟩
  rw [isLocallyNormal_ofConjuncts_iff mixed two, quantifier, hasInnerQuantifier_connective]

/-- `.conjunction cs ∈ disjunctsOf css`: a formula contributes a conjunction if it has not a single
conjunct. -/
theorem conjunction_mem_disjunctsOf {cs : Conjuncts} :
    .conjunction cs ∈ disjunctsOf css ↔ cs = css ∧ ∀ c, css ≠ [c] := by
  unfold disjunctsOf
  split
  · simp
  · next several =>
    rw [List.mem_singleton, Disjunct.conjunction.injEq]
    exact (and_iff_left several).symm

/-- `.simple φ ∈ disjunctsOf css`: a formula contributes the disjuncts of a single conjunct. -/
theorem simple_mem_disjunctsOf :
    .simple φ ∈ disjunctsOf css ↔ ∃ c, css = [c] ∧ φ ∈ c := by
  unfold disjunctsOf
  split
  · simp
  · next several =>
    refine iff_of_false (by simp) ?_
    rintro ⟨c, same, -⟩
    exact several c same

/-- Disjuncts without conjunctions are simple. -/
theorem exists_eq_map_simple (simple : ∀ cs, .conjunction cs ∉ ds) :
    ∃ ψs : List Formula, ds = ψs.map .simple := by
  refine takeConjunction_eq_none ?_
  cases taken : takeConjunction ds with
  | none => rfl
  | some found =>
    exact absurd ((takeConjunction_perm taken).mem_iff.2 List.mem_cons_self) (simple found.1)

section Members

variable (all : List.Forall₂ HasParts φs parts)

include all

/-- The conjuncts of all members are mixed. -/
theorem isMixed_of_hasParts : ∀ cs ∈ parts, cs.IsMixed :=
  forall_right_of_forall₂ all fun _ _ h => h.mixed

/-- `cs.HasQuantifier`: the conjuncts of some member have a quantifier if the members have one. -/
theorem exists_hasQuantifier_iff :
    (∃ cs ∈ parts, cs.HasQuantifier) ↔ totalCount φs ≠ 0 := by
  rw [totalCount_ne_zero_iff]
  exact (exists_mem_iff_of_forall₂ all fun _ _ h => h.quantifier.symm).symm

/-- `2 ≤ cs.length`: some member has several conjuncts if a conjunction is met in a member. -/
theorem exists_several_iff :
    (∃ cs ∈ parts, 2 ≤ cs.length) ↔ ∃ φ ∈ φs, φ.hasConjunction true = true :=
  (exists_mem_iff_of_forall₂ all fun _ _ h => h.several.symm).symm

/-- `HasParts (connective .and φs) parts.flatten`: a conjunction has the conjuncts of its
members. -/
theorem hasParts_and (two : 2 ≤ φs.length) : HasParts (.connective .and φs) parts.flatten := by
  have mixed := isMixed_of_hasParts all
  have enough : 2 ≤ parts.flatten.length := by
    rw [List.flatten_eq_flatMap]
    refine Nat.le_trans (all.length_eq ▸ two) ?_
    exact length_le_length_flatMap fun cs mem => (mixed cs mem).some
  have together := isMixed_flatten (List.length_pos_iff.1
    (Nat.zero_lt_of_lt (all.length_eq ▸ two))) mixed
  have wide : 2 ≤ parts.flatten.flatten.length := by
    rw [List.flatten_eq_flatMap (L := parts.flatten)]
    exact Nat.le_trans enough (length_le_length_flatMap together.clause)
  refine hasParts_connective together wide ?_ ?_
  · rw [← exists_hasQuantifier_iff all]
    exact contains_flatten
  · exact iff_of_true enough (hasConjunction_connective.2 (.inl rfl))

/-! ### Disjunctions -/

/-- `parts.flatMap disjunctsOf`: each member contributes a disjunct. -/
theorem two_le_length_disjuncts (two : 2 ≤ φs.length) :
    2 ≤ (parts.flatMap disjunctsOf).length := by
  refine Nat.le_trans (all.length_eq ▸ two) (length_le_length_flatMap fun cs mem => ?_)
  exact disjunctsOf_ne_nil (isMixed_of_hasParts all cs mem).clause

/-- A conjunction among the disjuncts has several conjuncts. -/
theorem two_le_length_of_conjunction {cs : Conjuncts}
    (mem : .conjunction cs ∈ parts.flatMap disjunctsOf) : 2 ≤ cs.length := by
  obtain ⟨cs', hcs, hd⟩ := List.mem_flatMap.1 mem
  obtain ⟨rfl, several⟩ := conjunction_mem_disjunctsOf.1 hd
  exact two_le_length (isMixed_of_hasParts all cs hcs).some several

/-- There are disjuncts. -/
theorem disjuncts_ne_nil (two : 2 ≤ φs.length) : parts.flatMap disjunctsOf ≠ [] :=
  List.length_pos_iff.1 (Nat.zero_lt_of_lt (two_le_length_disjuncts all two))

/-- A conjunction among the disjuncts is not empty. -/
theorem ne_nil_of_conjunction {cs : Conjuncts}
    (mem : .conjunction cs ∈ parts.flatMap disjunctsOf) : cs ≠ [] :=
  List.length_pos_iff.1 (Nat.zero_lt_of_lt (two_le_length_of_conjunction all mem))

/-- `.conjunction cs ∈ parts.flatMap disjunctsOf`: there is a conjunction among the disjuncts if a
conjunction is met in a member. -/
theorem exists_conjunction_iff : (∃ cs, .conjunction cs ∈ parts.flatMap disjunctsOf) ↔
    ∃ φ ∈ φs, φ.hasConjunction true = true := by
  rw [← exists_several_iff all]
  constructor
  · rintro ⟨cs, mem⟩
    obtain ⟨cs', hcs, hd⟩ := List.mem_flatMap.1 mem
    obtain ⟨rfl, -⟩ := conjunction_mem_disjunctsOf.1 hd
    exact ⟨cs, hcs, two_le_length_of_conjunction all mem⟩
  · rintro ⟨cs, hcs, several⟩
    refine ⟨cs, List.mem_flatMap.2 ⟨cs, hcs, conjunction_mem_disjunctsOf.2 ⟨rfl, ?_⟩⟩⟩
    rintro c rfl
    simp at several

/-- `d.Contains`: there is a quantifier in the disjuncts if the members have one. -/
theorem exists_contains_iff :
    (∃ d ∈ parts.flatMap disjunctsOf, d.Contains fun φ => φ.isQuantified = true) ↔
      totalCount φs ≠ 0 := by
  rw [← exists_hasQuantifier_iff all]
  exact exists_mem_flatMap_disjunctsOf _ (by simp [Disjunct.Contains, Conjuncts.Contains])

/-- `distributeDisjuncts (parts.flatMap disjunctsOf) = .error e`: members with a quantifier and a
conjunction cannot be distributed. -/
theorem distributeDisjuncts_refuses_members (two : 2 ≤ φs.length) (some : totalCount φs ≠ 0)
    (conjunction : ∃ φ ∈ φs, φ.hasConjunction true = true) :
    ∃ e, distributeDisjuncts (parts.flatMap disjunctsOf) = .error e ∧ e.RefusesQuantifier := by
  obtain ⟨cs, mem⟩ := (exists_conjunction_iff all).2 conjunction
  exact distributeDisjuncts_refuses (two_le_length_disjuncts all two) mem
    (fun cs mem => ne_nil_of_conjunction all mem) ((exists_contains_iff all).2 some)

/-- `distributeDisjuncts (parts.flatMap disjunctsOf) = .ok css`: members without quantifiers are
distributed over their conjunctions. -/
theorem exists_hasParts_of_conjunction (two : 2 ≤ φs.length) (none : totalCount φs = 0)
    (conjunction : ∃ φ ∈ φs, φ.hasConjunction true = true) :
    ∃ css, distributeDisjuncts (parts.flatMap disjunctsOf) = .ok css ∧
      HasParts (.connective .or φs) css := by
  -- Without quantifiers the disjuncts are literals and conjunctions of clauses, over which
  -- distribution succeeds.
  have proper : ∀ d ∈ parts.flatMap disjunctsOf, d.IsProper (.naming fun _ => True) := by
    intro d mem
    obtain ⟨cs, hcs, hd⟩ := List.mem_flatMap.1 mem
    refine isProper_of_mem_disjunctsOf (isProper_of_isMixed (isMixed_of_hasParts all cs hcs) ?_) hd
    exact fun quantifier => (exists_hasQuantifier_iff all).1 ⟨cs, hcs, quantifier⟩ none
  obtain ⟨css, found, spec⟩ := exists_distributeDisjuncts (disjuncts_ne_nil all two) proper
  obtain ⟨cs, mem⟩ := (exists_conjunction_iff all).2 conjunction
  have longer := (length_le_of_distributeDisjuncts found
    fun cs mem => ne_nil_of_conjunction all mem).2 cs mem
  have several : 2 ≤ css.length := Nat.le_trans (two_le_length_of_conjunction all mem) longer
  have wide : 2 ≤ css.flatten.length := by
    rw [List.flatten_eq_flatMap]
    exact Nat.le_trans several (length_le_length_flatMap spec.proper.clause)
  refine ⟨css, found, hasParts_connective ⟨spec.proper.some, spec.proper.clause, ?_⟩ wide ?_ ?_⟩
  · exact fun c hc φ hφ => .inl (spec.proper.literal c hc φ hφ).1
  · rw [← exists_contains_iff all]
    exact spec.contains _
  · exact iff_of_true several (hasConjunction_connective.2 (.inr conjunction))

/-- `distributeDisjuncts (parts.flatMap disjunctsOf) = .ok css`: members without conjunctions are
the parts of a single conjunct. -/
theorem exists_hasParts_of_simple (two : 2 ≤ φs.length)
    (simple : ¬ ∃ φ ∈ φs, φ.hasConjunction true = true) :
    ∃ css, distributeDisjuncts (parts.flatMap disjunctsOf) = .ok css ∧
      HasParts (.connective .or φs) css := by
  have wide := two_le_length_disjuncts all two
  have quantifier := exists_contains_iff all
  have part : ∀ φ, .simple φ ∈ parts.flatMap disjunctsOf →
      φ.isLiteral = true ∨ φ.isQuantified = true := by
    intro φ mem
    obtain ⟨cs, hcs, hd⟩ := List.mem_flatMap.1 mem
    obtain ⟨c, rfl, hφ⟩ := simple_mem_disjunctsOf.1 hd
    exact (isMixed_of_hasParts all _ hcs).part c List.mem_cons_self φ hφ
  -- No member has a conjunction, so that all disjuncts are simple and make up one clause.
  obtain ⟨ψs, same⟩ := exists_eq_map_simple fun cs mem =>
    simple ((exists_conjunction_iff all).1 ⟨cs, mem⟩)
  rw [same] at wide quantifier part ⊢
  rw [List.length_map] at wide
  refine ⟨[ψs], distributeDisjuncts_simple ψs, hasParts_connective ⟨List.cons_ne_nil _ _, ?_, ?_⟩
    (by rwa [List.flatten_singleton]) ?_ ?_⟩
  · rw [List.forall_mem_singleton]
    exact List.length_pos_iff.1 (Nat.zero_lt_of_lt wide)
  · rw [List.forall_mem_singleton]
    exact fun φ mem => part φ (List.mem_map_of_mem mem)
  · rw [← quantifier]
    simp [Conjuncts.HasQuantifier, Conjuncts.Contains, Disjunct.Contains]
  · refine iff_of_false (by simp) fun conjunction => ?_
    rcases hasConjunction_connective.1 conjunction with cases' | member
    · cases cases'
    · exact simple member

end Members

end Formula

end ClausalForm
