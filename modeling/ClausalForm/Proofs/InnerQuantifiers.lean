import ClausalForm.Proofs.NegationForms

/-! # Quantifiers inside of a matrix

A quantifier below a connective is no part of a matrix. Pushing negations down moves no quantifier
into a connective and none out of it, but it turns conjunctions and disjunctions into each other.

* **`Formula.HasInnerQuantifier`**: a connective contains a quantifier.
* **`Formula.hasConjunction`**: a conjunction is met outside of all quantifiers.
* **`Formula.MeetsQuantifier`**: a quantifier is met on the way to the conjunctive normal form.
* **`Formula.hasInnerQuantifier_negationForm`**, **`Formula.hasConjunction_negationForm`**: the
  negation normal form of a formula.
* **`Formula.meetsQuantifier_iff`**: in negation normal form every inner quantifier is met. -/

namespace ClausalForm.Formula

variable {leaves : Leaves} {positive : Bool} {op : Connective} {q : Quantifier} {xs : List String}
  {φ ψ : Formula} {φs : List Formula}

/-! ## Inner quantifiers -/

/-- `φ.HasInnerQuantifier`: some quantifier stands below a connective, with whatever in between. -/
def HasInnerQuantifier (φ : Formula) : Prop :=
  ∃ op ψs, .connective op ψs ∈ φ.subformulas ∧ totalCount ψs ≠ 0

/-- A formula without quantifiers has no inner ones. -/
theorem not_hasInnerQuantifier (none : φ.quantifierCount = 0) : ¬ φ.HasInnerQuantifier := by
  rintro ⟨op, ψs, mem, some⟩
  exact some (quantifierCount_of_mem_subformulas none mem)

/-- A negation has the inner quantifiers of its body. -/
theorem hasInnerQuantifier_not : (Formula.not φ).HasInnerQuantifier ↔ φ.HasInnerQuantifier := by
  simp [HasInnerQuantifier]

/-- `totalCount φs ≠ 0`: all quantifiers in a connective are inner ones. -/
theorem hasInnerQuantifier_connective :
    (Formula.connective op φs).HasInnerQuantifier ↔ totalCount φs ≠ 0 := by
  constructor
  · intro inner none
    exact not_hasInnerQuantifier (φ := .connective op φs) none inner
  · intro some
    exact ⟨op, φs, mem_subformulas_self _, some⟩

/-- A quantifier is no inner one by itself. -/
theorem hasInnerQuantifier_quantified :
    (Formula.quantified q xs φ).HasInnerQuantifier ↔ φ.HasInnerQuantifier := by
  simp [HasInnerQuantifier]

/-- Some formulas have a quantifier if one of them has. -/
theorem totalCount_ne_zero_iff : totalCount φs ≠ 0 ↔ ∃ φ ∈ φs, φ.quantifierCount ≠ 0 := by
  rw [ne_eq, totalCount_eq_zero_iff]
  simp

/-! ## Quantifiers that are met -/

/-- `φ.hasConjunction positive`: whether a conjunction is met outside of quantifiers, in a formula
under a sign. -/
def hasConjunction (positive : Bool) : Formula → Bool
  | .atom _ => false
  | .not φ => φ.hasConjunction (!positive)
  | .connective op φs => op.signed positive = .and || (φs.map (hasConjunction positive)).any id
  | .quantified .. => false

/-- A conjunction is met in a conjunction, or in a member. -/
theorem hasConjunction_connective : (Formula.connective op φs).hasConjunction positive = true ↔
    op.signed positive = .and ∨ ∃ φ ∈ φs, φ.hasConjunction positive = true := by
  simp [hasConjunction]

/-- `φ.hasConjunction positive = false`: no conjunction is met in a literal. -/
theorem hasConjunction_of_isLiteral (literal : φ.isLiteral = true) (positive : Bool) :
    φ.hasConjunction positive = false := by
  cases φ with
  | atom a => rw [hasConjunction]
  | not φ =>
    cases φ with
    | atom a => rw [hasConjunction, hasConjunction]
    | _ => cases literal
  | _ => cases literal

/-- **Quantifiers that are met.** `φ.MeetsQuantifier`: a quantifier is met on the way to the
conjunctive normal form. The members of a connective are looked at before their negations are pushed
down, and again when a disjunction is distributed over a conjunction. -/
inductive MeetsQuantifier : Formula → Prop
  /-- All connectives in a negation are looked at after it has been pushed down. -/
  | negation {φ : Formula} (inner : φ.HasInnerQuantifier) : MeetsQuantifier (.not φ)
  /-- A quantifier may enclose a matrix. -/
  | body {q : Quantifier} {xs : List String} {φ : Formula} (body : MeetsQuantifier φ) :
      MeetsQuantifier (.quantified q xs φ)
  /-- A member of a connective is a quantifier. -/
  | member {op : Connective} {φs : List Formula} {φ : Formula} (mem : φ ∈ φs)
      (quantified : φ.isQuantified = true) : MeetsQuantifier (.connective op φs)
  /-- A quantifier is met in a member. -/
  | inside {op : Connective} {φs : List Formula} {φ : Formula} (mem : φ ∈ φs)
      (inside : MeetsQuantifier φ) : MeetsQuantifier (.connective op φs)
  /-- A disjunction with a quantifier anywhere in it is distributed over a conjunction. -/
  | distributed {φs : List Formula} {φ ψ : Formula} (left : φ ∈ φs)
      (quantifier : φ.quantifierCount ≠ 0) (right : ψ ∈ φs)
      (conjunction : ψ.hasConjunction true = true) : MeetsQuantifier (.connective .or φs)

/-- `φ.HasInnerQuantifier`: a quantifier that is met is an inner one. -/
theorem MeetsQuantifier.hasInnerQuantifier (h : φ.MeetsQuantifier) : φ.HasInnerQuantifier := by
  induction h with
  | negation inner => exact hasInnerQuantifier_not.2 inner
  | body _ ih => exact hasInnerQuantifier_quantified.2 ih
  | @member op φs φ mem quantified =>
    refine hasInnerQuantifier_connective.2 (totalCount_ne_zero_iff.2 ⟨φ, mem, ?_⟩)
    cases φ with
    | quantified => simp [quantifierCount]
    | _ => cases quantified
  | @inside op φs φ mem _ ih =>
    refine hasInnerQuantifier_connective.2 (totalCount_ne_zero_iff.2 ⟨φ, mem, fun none => ?_⟩)
    exact not_hasInnerQuantifier none ih
  | distributed left quantifier =>
    exact hasInnerQuantifier_connective.2 (totalCount_ne_zero_iff.2 ⟨_, left, quantifier⟩)

/-- A quantifier is met in a negation if it is an inner one. -/
theorem meetsQuantifier_not : (Formula.not φ).MeetsQuantifier ↔ φ.HasInnerQuantifier := by
  constructor
  · intro h
    cases h with
    | negation inner => exact inner
  · exact .negation

/-- A quantifier is met in a connective as a member or in a member, or if a disjunction that
contains a quantifier is distributed. -/
theorem meetsQuantifier_connective : (Formula.connective op φs).MeetsQuantifier ↔
    (∃ φ ∈ φs, φ.isQuantified = true ∨ φ.MeetsQuantifier) ∨
      op = .or ∧ totalCount φs ≠ 0 ∧ ∃ φ ∈ φs, φ.hasConjunction true = true := by
  constructor
  · intro h
    cases h with
    | member mem quantified => exact .inl ⟨_, mem, .inl quantified⟩
    | inside mem inside => exact .inl ⟨_, mem, .inr inside⟩
    | distributed left quantifier right conjunction =>
      exact .inr ⟨rfl, totalCount_ne_zero_iff.2 ⟨_, left, quantifier⟩, _, right, conjunction⟩
  · rintro (⟨φ, mem, quantified | inside⟩ | ⟨rfl, some, ψ, right, conjunction⟩)
    · exact .member mem quantified
    · exact .inside mem inside
    · obtain ⟨φ, left, quantifier⟩ := totalCount_ne_zero_iff.1 some
      exact .distributed left quantifier right conjunction

/-- A quantifier is met in a quantifier if it is met in the body. -/
theorem meetsQuantifier_quantified :
    (Formula.quantified q xs φ).MeetsQuantifier ↔ φ.MeetsQuantifier := by
  constructor
  · intro h
    cases h with
    | body body => exact body
  · exact .body

/-- `φ.MeetsQuantifier ↔ φ.HasInnerQuantifier`: in negation normal form every inner quantifier is
met. -/
theorem meetsQuantifier_iff (literal : φ.WellFormed leaves.literals) :
    φ.MeetsQuantifier ↔ φ.HasInnerQuantifier := by
  refine ⟨MeetsQuantifier.hasInnerQuantifier, fun inner => ?_⟩
  induction literal with
  | atom => exact absurd inner (not_hasInnerQuantifier rfl)
  | not => exact .negation (hasInnerQuantifier_not.1 inner)
  | @connective op φs _ _ members ih =>
    obtain ⟨φ, mem, some⟩ := totalCount_ne_zero_iff.1 (hasInnerQuantifier_connective.1 inner)
    -- The member is a quantifier or contains one, and then it is a connective.
    cases φ with
    | atom => exact absurd rfl some
    | quantified => exact .member mem rfl
    | connective => exact .inside mem (ih _ mem (hasInnerQuantifier_connective.2 some))
    | not φ =>
      have atomic := (wellFormed_not_iff.1 (members _ mem)).1.resolve_right id
      cases φ with
      | atom => exact absurd rfl some
      | _ => cases atomic
  | quantified _ _ ih => exact .body (ih (hasInnerQuantifier_quantified.1 inner))

/-! ## Negation normal forms -/

/-- `φ.pushed positive = .ok (φ.negationForm positive)`: a formula without empty connectives has a
form, which is well-formed. -/
theorem pushed_eq_negationForm (populated : φ.Populated leaves) (positive : Bool) :
    φ.pushed positive = .ok (φ.negationForm positive) ∧
      (φ.negationForm positive).WellFormed leaves.literals := by
  obtain ⟨ψ, pushing, -, literal⟩ := exists_pushed populated positive
  have found := (pushed_eq_ok (not_hasEmptyConnective_of_pushed pushing) positive).1
  have same := Except.ok.inj (found.symm.trans pushing)
  exact ⟨found, same ▸ literal⟩

/-- `joined op φs = connective op φs`: several members are joined by a connective. -/
theorem joined_of_two (two : 2 ≤ φs.length) : joined op φs = .connective op φs := by
  rw [joined]
  rintro φ rfl
  rw [List.length_singleton] at two
  omega

/-- `(connective op φs).negationForm positive`: the form of a well-formed connective is a
connective. -/
theorem negationForm_connective (h : (Formula.connective op φs).WellFormed leaves)
    (positive : Bool) : (Formula.connective op φs).negationForm positive =
      .connective (op.signed positive)
        (spliced (op.signed positive) (φs.map (negationForm positive))) := by
  obtain ⟨two, -, members⟩ := wellFormed_connective_iff.1 h
  have forms : ∀ ψ ∈ φs.map (negationForm positive), ψ.WellFormed leaves.literals :=
    List.forall_mem_map.2 fun φ mem =>
      (pushed_eq_negationForm (members φ mem).populated positive).2
  have enough := le_length_spliced (op.signed positive) forms
  rw [List.length_map] at enough
  rw [negationForm, joined_of_two (Nat.le_trans two enough)]

/-- `(φ.negationForm positive).quantifierCount`: the form has the same number of quantifiers. -/
theorem quantifierCount_negationForm (positive : Bool) (φ : Formula) :
    (φ.negationForm positive).quantifierCount = φ.quantifierCount := by
  induction φ using induction generalizing positive with
  | atom a =>
    rw [negationForm]
    cases positive <;> rfl
  | not φ ih => rw [negationForm, ih, quantifierCount]
  | connective op φs ih =>
    rw [negationForm, quantifierCount_joined, totalCount_spliced,
      totalCount_map fun φ mem => ih φ mem positive, quantifierCount_connective]
  | quantified q xs φ ih => rw [negationForm, quantifierCount, quantifierCount, ih]

/-- `(φ.negationForm positive).HasInnerQuantifier`: the form of a well-formed formula has inner
quantifiers if the formula has. -/
theorem hasInnerQuantifier_negationForm (h : φ.WellFormed leaves) (positive : Bool) :
    (φ.negationForm positive).HasInnerQuantifier ↔ φ.HasInnerQuantifier := by
  induction h generalizing positive with
  | @atom a =>
    have none := quantifierCount_negationForm positive (.atom a)
    exact iff_of_false (not_hasInnerQuantifier none) (not_hasInnerQuantifier rfl)
  | not _ _ ih => rw [negationForm, hasInnerQuantifier_not, ih]
  | connective two flat members =>
    rw [negationForm_connective (.connective two flat members), hasInnerQuantifier_connective,
      hasInnerQuantifier_connective, totalCount_spliced,
      totalCount_map fun φ _ => quantifierCount_negationForm positive φ]
  | quantified _ _ ih =>
    rw [negationForm, hasInnerQuantifier_quantified, hasInnerQuantifier_quantified, ih]

/-- `ψ ∈ φ.membersOf .or`: a formula has a conjunction if what it contributes to a disjunction
has. -/
theorem exists_mem_membersOf_or :
    (∃ ψ ∈ φ.membersOf .or, ψ.hasConjunction true = true) ↔ φ.hasConjunction true = true := by
  unfold membersOf
  split
  · next op φs =>
    rw [hasConjunction_connective]
    cases op with
    | and => simp [hasConjunction, Connective.signed]
    | or => simp [Connective.signed]
  · simp

/-- `(φ.negationForm positive).hasConjunction true`: a conjunction is met in the form of a
well-formed formula if it is met in the formula under the sign. -/
theorem hasConjunction_negationForm (h : φ.WellFormed leaves) (positive : Bool) :
    (φ.negationForm positive).hasConjunction true = true ↔
      φ.hasConjunction positive = true := by
  induction h generalizing positive with
  | atom => cases positive <;> simp [negationForm, signed, hasConjunction]
  | not _ _ ih => rw [negationForm, hasConjunction, ih]
  | @connective op φs two flat members ih =>
    rw [negationForm_connective (.connective two flat members), hasConjunction_connective,
      hasConjunction_connective]
    cases op.signed positive with
    | and => simp [Connective.signed]
    | or =>
      -- What is spliced into a disjunction has the conjunctions of what it comes from.
      refine or_congr (by simp [Connective.signed]) ?_
      simp only [spliced, List.mem_flatMap, List.mem_map]
      constructor
      · rintro ⟨χ, ⟨_, ⟨φ, mem, rfl⟩, hχ⟩, conjunction⟩
        exact ⟨φ, mem, (ih φ mem positive).1 (exists_mem_membersOf_or.1 ⟨χ, hχ, conjunction⟩)⟩
      · rintro ⟨φ, mem, conjunction⟩
        obtain ⟨χ, hχ, found⟩ := exists_mem_membersOf_or.2 ((ih φ mem positive).2 conjunction)
        exact ⟨χ, ⟨_, ⟨φ, mem, rfl⟩, hχ⟩, found⟩
  | quantified => simp [negationForm, hasConjunction]

end ClausalForm.Formula
