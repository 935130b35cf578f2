import ClausalForm.Proofs.MatrixForms
import ClausalForm.Proofs.Subformulas

/-! # Negation normal forms of all formulas

Pushing negations works on every formula: connectives may be nested in their own kind or have a
single member, and quantifiers may bind anything. It fails on empty connectives only, and otherwise
it computes the negation normal form by recursion.

* **`Formula.negationForm`**: the negation normal form of a formula under a sign.
* **`Formula.IsReduced`**: what a node of a negation normal form looks like.
* **`Formula.pushed_eq_ok`**, **`Formula.not_hasEmptyConnective_of_pushed`**: when there is a form.
* **`Formula.pushNegations_computes`**: what pushing negations returns for any formula. -/

namespace ClausalForm.Formula

variable {positive : Bool} {op : Connective} {q : Quantifier} {xs : List String} {φ ψ r : Formula}
  {φs : List Formula} {e : NormalizationError}

/-! ## The form by recursion -/

/-- `φ.negationForm positive`: the negation normal form of a formula under a sign. A negation turns
the sign, a connective and a quantifier take the one that belongs to the sign, and a connective
takes in the members of those of its kind. -/
def negationForm (positive : Bool) : Formula → Formula
  | .atom a => (Formula.atom a).signed positive
  | .not φ => φ.negationForm (!positive)
  | .connective op φs =>
    joined (op.signed positive) (spliced (op.signed positive) (φs.map (negationForm positive)))
  | .quantified q xs φ => .quantified (q.signed positive) xs (φ.negationForm positive)

/-- `(φ.negationForm positive).boundVariables`: the form binds the same variables in the same
order. -/
theorem boundVariables_negationForm (positive : Bool) (φ : Formula) :
    (φ.negationForm positive).boundVariables = φ.boundVariables := by
  induction φ using induction generalizing positive with
  | atom a => cases positive <;> simp [negationForm, signed]
  | not φ ih => rw [negationForm, ih, boundVariables_not]
  | connective op φs ih =>
    rw [negationForm, collect_joined boundVariables_connective,
      flatMap_spliced boundVariables_connective, List.flatMap_map, boundVariables_connective]
    exact List.flatMap_congr fun φ mem => ih φ mem positive
  | quantified q xs φ ih =>
    rw [negationForm, boundVariables_quantified, boundVariables_quantified, ih]

/-- `(φ.negationForm positive).Holds S v`: the form is true where the formula under the sign is. -/
theorem holds_negationForm {D : Type} (S : Structure D) (v : Valuation D) (positive : Bool)
    (φ : Formula) : (φ.negationForm positive).Holds S v ↔ (φ.signed positive).Holds S v := by
  induction φ using induction generalizing positive v with
  | atom a => rw [negationForm]
  | not φ ih =>
    rw [negationForm, ih]
    exact (rewrites_signed_not positive φ).holds S v
  | connective op φs ih =>
    have members : List.Forall₂ (fun φ ψ => φ.Holds S v ↔ ψ.Holds S v)
        (φs.map (negationForm positive)) (φs.map (signed positive)) := by
      rw [List.forall₂_map_left_iff, List.forall₂_map_right_iff, List.forall₂_same]
      exact fun φ mem => ih φ mem v positive
    rw [negationForm, (rewrites_joined _ _).holds, holds_spliced,
      holds_connective_congr _ members]
    exact (rewrites_signed_connective positive op φs).holds S v
  | quantified q xs φ ih =>
    rw [negationForm, holds_quantified_iff fun w => ih w positive]
    exact (rewrites_signed_quantified positive q xs φ).holds S v

/-! ## Nodes of a form -/

/-- `φ.IsReduced`: a node of a negation normal form. A negation stands at an atom, and a connective
has at least two members and none of its own kind. -/
def IsReduced : Formula → Prop
  | .atom _ => True
  | .not φ => φ.isAtom = true
  | .connective op φs => 2 ≤ φs.length ∧ ∀ φ ∈ φs, φ.isConnective op = false
  | .quantified .. => True

/-- `φ.membersOf op ≠ []`: a node of a negation normal form contributes something to a
connective. -/
theorem IsReduced.membersOf_ne_nil (h : φ.IsReduced) : φ.membersOf op ≠ [] := by
  refine Formula.membersOf_ne_nil ?_
  rintro rfl
  exact absurd h.1 (by simp)

/-- `ψ ∈ φ.membersOf op`: nothing that such a node contributes to a connective is of the kind of the
connective. -/
theorem IsReduced.isConnective_eq_false (h : φ.IsReduced) (mem : ψ ∈ φ.membersOf op) :
    ψ.isConnective op = false := by
  rcases of_mem_membersOf mem with ⟨φs, rfl, member⟩ | ⟨other, rfl⟩
  · exact h.2 ψ member
  · exact other

/-- Some formulas in negation normal form are spliced to some formulas. -/
theorem spliced_ne_nil_of_isReduced (op : Connective) (some : φs ≠ [])
    (each : ∀ φ ∈ φs, φ.IsReduced) : spliced op φs ≠ [] := by
  obtain ⟨φ, mem⟩ := List.exists_mem_of_ne_nil φs some
  intro none
  exact (each φ mem).membersOf_ne_nil (List.flatMap_eq_nil_iff.1 none φ mem)

/-- `joined op (spliced op φs)`: a connective of formulas in negation normal form is in negation
normal form. -/
theorem forall_isReduced_joined (op : Connective) (some : φs ≠ [])
    (each : ∀ φ ∈ φs, ∀ ψ ∈ φ.subformulas, ψ.IsReduced) :
    ∀ ψ ∈ (joined op (spliced op φs)).subformulas, ψ.IsReduced := by
  have root : ∀ φ ∈ φs, φ.IsReduced := fun φ mem => each φ mem φ φ.mem_subformulas_self
  have members := forall_mem_subformulas_of_spliced op each
  have inhabited := spliced_ne_nil_of_isReduced op some root
  have flat : ∀ ψ ∈ spliced op φs, ψ.isConnective op = false := by
    intro ψ mem
    obtain ⟨φ, hφ, hψ⟩ := List.mem_flatMap.1 mem
    exact (root φ hφ).isConnective_eq_false hψ
  generalize spliced op φs = ψs at members inhabited flat
  unfold joined
  split
  · next ψ => exact members ψ List.mem_cons_self
  · next several =>
    exact forall_mem_subformulas_connective.2 ⟨⟨two_le_length inhabited several, flat⟩, members⟩

/-- `φ.isNegationNormal = true`: a formula whose negations stand at atoms passes the test for
negation normal form. -/
theorem isNegationNormal_of_isReduced (each : ∀ ψ ∈ φ.subformulas, ψ.IsReduced) :
    φ.isNegationNormal = true := by
  induction φ using induction with
  | atom a => rw [isNegationNormal]
  | not φ _ =>
    rw [isNegationNormal]
    exact each _ (mem_subformulas_self _)
  | connective op φs ih =>
    have members := (forall_mem_subformulas_connective.1 each).2
    simpa [isNegationNormal] using fun φ mem => ih φ mem (members φ mem)
  | quantified q xs φ ih =>
    rw [isNegationNormal]
    exact ih fun ψ mem => each ψ (mem_subformulas_quantified.2 (.inr mem))

/-! ## When there is a form -/

/-- `φ.HasEmptyConnective`: some connective has no members. -/
def HasEmptyConnective (φ : Formula) : Prop := ∃ op, .connective op [] ∈ φ.subformulas

/-- A negation has the empty connectives of its body. -/
theorem hasEmptyConnective_not : (Formula.not φ).HasEmptyConnective ↔ φ.HasEmptyConnective := by
  simp [HasEmptyConnective]

/-- A connective is empty or has the empty connectives of its members. -/
theorem hasEmptyConnective_connective : (Formula.connective op φs).HasEmptyConnective ↔
    φs = [] ∨ ∃ φ ∈ φs, φ.HasEmptyConnective := by
  constructor
  · rintro ⟨op', mem⟩
    rcases mem_subformulas_connective.1 mem with same | ⟨φ, hφ, inside⟩
    · exact .inl (Formula.connective.inj same).2.symm
    · exact .inr ⟨φ, hφ, op', inside⟩
  · rintro (rfl | ⟨φ, hφ, op', inside⟩)
    · exact ⟨op, mem_subformulas_self _⟩
    · exact ⟨op', mem_subformulas_connective.2 (.inr ⟨φ, hφ, inside⟩)⟩

/-- A quantifier has the empty connectives of its body. -/
theorem hasEmptyConnective_quantified :
    (Formula.quantified q xs φ).HasEmptyConnective ↔ φ.HasEmptyConnective := by
  simp [HasEmptyConnective]

/-- `φ.pushed positive = .ok (φ.negationForm positive)`: without empty connectives the recursion
returns the form, all nodes of which are reduced. -/
theorem pushed_eq_ok (populated : ¬ φ.HasEmptyConnective) (positive : Bool) :
    φ.pushed positive = .ok (φ.negationForm positive) ∧
      ∀ ψ ∈ (φ.negationForm positive).subformulas, ψ.IsReduced := by
  induction φ using induction generalizing positive with
  | atom a =>
    refine ⟨by rw [pushed, negationForm], ?_⟩
    cases positive <;> simp [negationForm, signed, IsReduced, isAtom]
  | not φ ih =>
    rw [hasEmptyConnective_not] at populated
    rw [pushed, negationForm]
    exact ih populated (!positive)
  | connective op φs ih =>
    rw [hasEmptyConnective_connective, not_or] at populated
    have each : ∀ φ ∈ φs, φ.pushed positive = .ok (φ.negationForm positive) ∧
        ∀ ψ ∈ (φ.negationForm positive).subformulas, ψ.IsReduced :=
      fun φ mem => ih φ mem (fun h => populated.2 ⟨φ, mem, h⟩) positive
    have pushing : inOrder (φs.map (pushed positive)) = .ok (φs.map (negationForm positive)) :=
      inOrder_map_eq_ok_map fun φ mem => (each φ mem).1
    have reduced : ∀ χ ∈ φs.map (negationForm positive), ∀ ψ ∈ χ.subformulas, ψ.IsReduced :=
      List.forall_mem_map.2 fun φ mem => (each φ mem).2
    have some : φs.map (negationForm positive) ≠ [] := by
      rw [ne_eq, List.map_eq_nil_iff]
      exact populated.1
    rw [pushed, negationForm, pushing]
    -- The forms of the members are not empty, so that something is left to build from.
    exact ⟨combine_eq_joined (spliced_ne_nil_of_isReduced _ some fun χ mem =>
      reduced χ mem χ χ.mem_subformulas_self), forall_isReduced_joined _ some reduced⟩
  | quantified q xs φ ih =>
    rw [hasEmptyConnective_quantified] at populated
    obtain ⟨pushing, reduced⟩ := ih populated positive
    rw [pushed, negationForm, pushing]
    exact ⟨rfl, by simpa [IsReduced] using reduced⟩

/-- `φ.pushed positive = .ok ψ`: what the recursion succeeds on has no empty connectives. -/
theorem not_hasEmptyConnective_of_pushed (h : φ.pushed positive = .ok ψ) :
    ¬ φ.HasEmptyConnective := by
  induction φ using induction generalizing positive ψ with
  | atom a => simp [HasEmptyConnective]
  | not φ ih =>
    rw [pushed] at h
    rw [hasEmptyConnective_not]
    exact ih h
  | connective op φs ih =>
    rw [pushed] at h
    obtain ⟨ψs, pushing, built⟩ := bind_eq_ok_iff.1 h
    rw [hasEmptyConnective_connective]
    -- An empty connective is here, where it is not built, or in a member, which was pushed through.
    rintro (rfl | ⟨φ, mem, empty⟩)
    · cases pushing
      cases built
    · obtain ⟨χ, found⟩ := exists_inOrder_map_iff.1 ⟨ψs, pushing⟩ φ mem
      exact ih φ mem found empty
  | quantified q xs φ ih =>
    rw [pushed] at h
    obtain ⟨χ, found, -⟩ := map_eq_ok_iff.1 h
    rw [hasEmptyConnective_quantified]
    exact ih found

/-- `φ.pushed positive = .error e`: the recursion fails because of a connective without members. -/
theorem noMembers_of_pushed_eq_error (h : φ.pushed positive = .error e) :
    ∃ op, e = .malformed (.noMembers op) := by
  induction φ using induction generalizing positive with
  | atom a =>
    rw [pushed] at h
    cases h
  | not φ ih =>
    rw [pushed] at h
    exact ih h
  | connective op φs ih =>
    rw [pushed] at h
    rcases bind_eq_error_iff.1 h with inside | ⟨ψs, _, failed⟩
    · obtain ⟨φ, mem, failed⟩ := exists_of_inOrder_map_eq_error inside
      exact ih φ mem failed
    · exact ⟨_, (combine_eq_error_iff.1 failed).2⟩
  | quantified q xs φ ih =>
    rw [pushed] at h
    exact ih (map_eq_error_iff.1 h)

/-! ## What is returned -/

/-- `φ.pushNegations = .ok φ`: a formula all of whose nodes are reduced is its own negation normal
form. -/
theorem pushNegations_of_isReduced (each : ∀ ψ ∈ φ.subformulas, ψ.IsReduced) :
    φ.pushNegations = .ok φ := by
  rw [pushNegations_eq_pushed]
  induction φ using induction with
  | atom a =>
    rw [pushed]
    rfl
  | not φ _ =>
    -- A reduced negation is one of an atom.
    have atomic : φ.isAtom = true := each _ (mem_subformulas_self _)
    cases φ with
    | atom a =>
      rw [pushed, pushed]
      rfl
    | _ => cases atomic
  | connective op φs ih =>
    obtain ⟨⟨two, flat⟩, members⟩ := forall_mem_subformulas_connective.1 each
    have same := spliced_of_flat flat
    rw [pushed, inOrder_map_self fun φ mem => ih φ mem (members φ mem)]
    show combine op φs = .ok (.connective op φs)
    rw [combine_of_two (same.symm ▸ two), same]
  | quantified q xs φ ih =>
    rw [pushed, ih fun ψ mem => each ψ (mem_subformulas_quantified.2 (.inr mem))]
    rfl

/-- **Pushing negations down.** `φ.pushNegations` fails exactly if some connective has no members.
Otherwise it returns the negation normal form: negations stand at atoms only, connectives have at
least two members and none of their own kind, the same variables are bound in the same order, and
the truth is kept. A form is left as it is, and two negations in front make no difference. -/
theorem pushNegations_computes (φ : Formula) :
    ((∃ defect, φ.pushNegations = .error (.malformed defect)) ↔ φ.HasEmptyConnective) ∧
      φ.pushNegations ≠ .error (.malformed .lostSubformula) ∧
      (¬ φ.HasEmptyConnective → ∃ r, φ.pushNegations = .ok r ∧ r = φ.negationForm true ∧
        r.isNegationNormal = true ∧ (∀ ψ ∈ r.subformulas, ψ.IsReduced) ∧
        r.boundVariables = φ.boundVariables ∧
        (∀ (D : Type) (S : Structure D) (v : Valuation D), r.Holds S v ↔ φ.Holds S v) ∧
        r.pushNegations = .ok r) ∧
      (Formula.not (.not φ)).pushNegations = φ.pushNegations := by
  have run := pushNegations_eq_pushed φ
  refine ⟨⟨?_, ?_⟩, ?_, ?_, ?_⟩
  · rintro ⟨defect, failed⟩
    by_contra populated
    rw [run, (pushed_eq_ok populated true).1] at failed
    cases failed
  · intro empty
    rw [run]
    cases pushing : φ.pushed true with
    | error e =>
      obtain ⟨op, rfl⟩ := noMembers_of_pushed_eq_error pushing
      exact ⟨_, rfl⟩
    | ok ψ => exact absurd empty (not_hasEmptyConnective_of_pushed pushing)
  -- The machine runs as the recursion does, which loses no subformula.
  · intro lost
    obtain ⟨op, same⟩ := noMembers_of_pushed_eq_error (run.symm.trans lost)
    cases same
  · intro populated
    obtain ⟨pushing, reduced⟩ := pushed_eq_ok populated true
    exact ⟨_, run.trans pushing, rfl, isNegationNormal_of_isReduced reduced, reduced,
      boundVariables_negationForm true φ, fun D S v => holds_negationForm S v true φ,
      pushNegations_of_isReduced reduced⟩
  · rw [run, pushNegations_eq_pushed, pushed, pushed]
    rfl

end ClausalForm.Formula
