import ClausalForm.Proofs.WellFormed
import ClausalForm.Quantifier.Count

/-! # Subformulas

The formulas that a formula is built of, itself included. What a normal form asks of every node of a
formula is said of its subformulas.

* **`Formula.subformulas`**: the nodes of a formula, in pre-order.
* **`Formula.forall_mem_subformulas_of_spliced`**: splicing brings in no new node.
* **`Formula.quantifierCount_of_mem_subformulas`**: where there are no quantifiers at all. -/

namespace ClausalForm.Formula

variable {p : Formula → Prop} {op : Connective} {q : Quantifier} {xs : List String}
  {φ ψ : Formula} {φs : List Formula}

/-- `φ.subformulas`: the nodes of a formula, in pre-order. -/
def subformulas : Formula → List Formula
  | .atom a => [.atom a]
  | .not φ => .not φ :: φ.subformulas
  | .connective op φs => .connective op φs :: φs.flatMap subformulas
  | .quantified q xs φ => .quantified q xs φ :: φ.subformulas

/-- An atom is its only subformula. -/
@[simp] theorem mem_subformulas_atom {a : Atom} :
    ψ ∈ (Formula.atom a).subformulas ↔ ψ = .atom a := by
  rw [subformulas, List.mem_singleton]

/-- A subformula of a negation is the negation or stands in its body. -/
@[simp] theorem mem_subformulas_not :
    ψ ∈ (Formula.not φ).subformulas ↔ ψ = .not φ ∨ ψ ∈ φ.subformulas := by
  rw [subformulas, List.mem_cons]

/-- A subformula of a connective is the connective or stands in a member. -/
@[simp] theorem mem_subformulas_connective :
    ψ ∈ (Formula.connective op φs).subformulas ↔
      ψ = .connective op φs ∨ ∃ φ ∈ φs, ψ ∈ φ.subformulas := by
  rw [subformulas, List.mem_cons, List.mem_flatMap]

/-- A subformula of a quantifier is the quantifier or stands in its body. -/
@[simp] theorem mem_subformulas_quantified :
    ψ ∈ (Formula.quantified q xs φ).subformulas ↔ ψ = .quantified q xs φ ∨ ψ ∈ φ.subformulas := by
  rw [subformulas, List.mem_cons]

/-- `φ ∈ φ.subformulas`: every formula is a subformula of its own. -/
theorem mem_subformulas_self (φ : Formula) : φ ∈ φ.subformulas := by
  cases φ <;> simp

/-- `∀ ψ ∈ φ.subformulas, p ψ`: what holds of all nodes of a connective holds of the connective and
of all nodes of its members. -/
theorem forall_mem_subformulas_connective :
    (∀ ψ ∈ (Formula.connective op φs).subformulas, p ψ) ↔
      p (.connective op φs) ∧ ∀ φ ∈ φs, ∀ ψ ∈ φ.subformulas, p ψ := by
  rw [subformulas, List.forall_mem_cons, List.forall_mem_flatMap]

/-- `spliced op φs`: what holds of all nodes of some formulas holds of all nodes of the spliced
formulas. -/
theorem forall_mem_subformulas_of_spliced (op : Connective)
    (members : ∀ φ ∈ φs, ∀ ψ ∈ φ.subformulas, p ψ) :
    ∀ φ ∈ spliced op φs, ∀ ψ ∈ φ.subformulas, p ψ := by
  intro φ mem
  obtain ⟨χ, hχ, hφ⟩ := List.mem_flatMap.1 mem
  rcases of_mem_membersOf hφ with ⟨ψs, rfl, member⟩ | ⟨-, rfl⟩
  · -- A member of a connective all of whose nodes are as they should be.
    exact (forall_mem_subformulas_connective.1 (members _ hχ)).2 φ member
  · exact members _ hχ

/-- `φ.quantifierCount = 0`: in a formula without quantifiers no subformula has one. -/
theorem quantifierCount_of_mem_subformulas (none : φ.quantifierCount = 0)
    (mem : ψ ∈ φ.subformulas) : ψ.quantifierCount = 0 := by
  induction φ using induction with
  | atom a => rwa [mem_subformulas_atom.1 mem]
  | not φ ih =>
    rcases mem_subformulas_not.1 mem with rfl | inside
    · exact none
    · exact ih none inside
  | connective op φs ih =>
    rcases mem_subformulas_connective.1 mem with rfl | ⟨φ, hφ, inside⟩
    · exact none
    · rw [quantifierCount_connective, totalCount_eq_zero_iff] at none
      exact ih φ hφ (none φ hφ) inside
  | quantified q xs φ => simp [quantifierCount] at none

end ClausalForm.Formula
