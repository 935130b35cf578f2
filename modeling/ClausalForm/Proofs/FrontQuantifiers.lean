import ClausalForm.Proofs.Coalescing

/-! # Quantifiers in front

In a connective whose members have their quantifiers in front, quantifiers are merged and moved out
until the quantifiers of the connective stand in front.

* **`Formula.IsPrenex`**: a formula with its quantifiers in front.
* **`Formula.Movable`**: a member from which a quantifier can be moved out so that only such
  formulas are left.
* **`Formula.IsPrenex.simplify`**, **`Formula.IsPrenex.rename`**, **`Formula.Aligned.isPrenex`**:
  the operations on quantifiers leave them in front. -/

namespace ClausalForm.Formula

variable {leaves : Leaves} {q : Quantifier} {op : Connective} {xs ys : List String}
  {φ ψ χ : Formula} {φs : List Formula}

/-- `φ.IsPrenex`: all quantifiers stand in front. -/
def IsPrenex (φ : Formula) : Prop := φ.matrix.quantifierCount = 0

/-- `φ.Movable op`: a quantifier whose body contributes formulas with their quantifiers in front to
the connective that it is moved out of. Other formulas contribute no quantifiers at all. -/
def Movable (op : Connective) : Formula → Prop
  | .quantified _ _ φ => ∀ ψ ∈ φ.membersOf op, ψ.IsPrenex
  | φ => φ.quantifierCount = 0

/-- A quantifier stands in front of a body that has its quantifiers in front. -/
@[simp] theorem isPrenex_quantified : (Formula.quantified q xs φ).IsPrenex ↔ φ.IsPrenex := by
  rw [IsPrenex, matrix, IsPrenex]

/-- `φ.quantifierCount = 0`: a formula without quantifiers has them in front. -/
theorem isPrenex_of_quantifierCount (none : φ.quantifierCount = 0) : φ.IsPrenex := by
  cases φ with
  | quantified => simp [quantifierCount] at none
  | _ => simpa only [IsPrenex, matrix] using none

/-- `φ.IsPrenex`: a formula other than a quantifier has its quantifiers in front if it has none. -/
theorem IsPrenex.quantifierCount (h : φ.IsPrenex) (other : φ.isQuantified = false) :
    φ.quantifierCount = 0 := by
  cases φ with
  | quantified => simp [isQuantified] at other
  | _ => simpa only [IsPrenex, matrix] using h

/-- `ψ ∈ φ.membersOf op`: the members of a connective have their quantifiers in front, if the
connective has. -/
theorem IsPrenex.of_mem_membersOf (h : φ.IsPrenex) (mem : ψ ∈ φ.membersOf op) : ψ.IsPrenex := by
  rcases Formula.of_mem_membersOf mem with ⟨φs, rfl, member⟩ | ⟨-, rfl⟩
  · -- Below a connective there is no place in front.
    have none := h.quantifierCount rfl
    rw [quantifierCount_connective, totalCount_eq_zero_iff] at none
    exact isPrenex_of_quantifierCount (none ψ member)
  · exact h

/-- If a connective contributes formulas with their quantifiers in front, its members are such
formulas. -/
theorem isPrenex_of_mem {op' : Connective} (h : ∀ ψ ∈ (Formula.connective op' φs).membersOf op,
    ψ.IsPrenex) (mem : φ ∈ φs) : φ.IsPrenex := by
  rw [membersOf] at h
  split at h
  · exact h φ mem
  · -- The connective is a member itself, and has no quantifiers.
    have none := (h _ List.mem_cons_self).quantifierCount rfl
    rw [quantifierCount_connective, totalCount_eq_zero_iff] at none
    exact isPrenex_of_quantifierCount (none φ mem)

/-- `φ.Movable op`: quantifiers can be moved out of formulas that have them in front. -/
theorem IsPrenex.movable (h : φ.IsPrenex) (op : Connective) : φ.Movable op := by
  cases φ with
  | quantified q xs φ => exact fun ψ mem => IsPrenex.of_mem_membersOf (isPrenex_quantified.1 h) mem
  | _ => exact h.quantifierCount rfl

/-- A movable member other than a quantifier has its quantifiers in front, as it has none. -/
theorem Movable.isPrenex (h : φ.Movable op) (plain : φ.isQuantified = false) : φ.IsPrenex := by
  refine isPrenex_of_quantifierCount ?_
  cases φ with
  | quantified => cases plain
  | _ => exact h

/-- `quantify q xs φ`: building a quantifier in front leaves the others in front. -/
theorem IsPrenex.quantify (h : φ.IsPrenex) : (Formula.quantify q xs φ).IsPrenex := by
  unfold Formula.quantify
  split
  · exact h
  · exact isPrenex_quantified.2 h

/-- So does simplifying. -/
theorem IsPrenex.simplify (h : φ.IsPrenex) : φ.simplify.IsPrenex := by
  rw [IsPrenex] at h ⊢
  rw [matrix_simplify, simplify_of_quantifierCount_eq_zero h, h]

/-- `φ.rename m`: renaming leaves the quantifiers where they are. -/
theorem IsPrenex.rename (h : φ.IsPrenex) (m : Renaming) : (φ.rename m).IsPrenex := by
  induction φ using induction generalizing m with
  | quantified q xs φ ih =>
    rw [Formula.rename, isPrenex_quantified]
    exact ih (isPrenex_quantified.1 h) _
  | _ => exact isPrenex_of_quantifierCount (by rw [quantifierCount_rename, h.quantifierCount rfl])

/-- `(φ.rename m).membersOf op`: the members of a renamed formula are the renamed members. -/
theorem membersOf_rename (m : Renaming) (op : Connective) (φ : Formula) :
    (φ.rename m).membersOf op = (φ.membersOf op).map (Formula.rename m) := by
  cases φ with
  | connective op' φs =>
    rw [Formula.rename, membersOf, membersOf]
    split
    · rfl
    · rw [List.map_singleton, Formula.rename]
  | _ => simp [Formula.rename, membersOf]

/-- What an aligned body contributes has its quantifiers in front, if what the body contributed
had. -/
theorem Aligned.isPrenex (h : Aligned xs φ ys ψ) (body : ∀ χ ∈ φ.membersOf op, χ.IsPrenex) :
    ∀ χ ∈ ψ.membersOf op, χ.IsPrenex := by
  cases h with
  | kept => exact body
  | renamed =>
    rw [membersOf_rename]
    intro χ mem
    obtain ⟨θ, hθ, rfl⟩ := List.mem_map.1 mem
    exact (body θ hθ).rename _

/-- `ψ.membersOf op = spliced op φs`: what a built connective contributes is what its parts
contribute. -/
theorem membersOf_of_combine (members : ∀ φ ∈ φs, φ.WellFormed leaves)
    (built : combine op φs = .ok ψ) : ψ.membersOf op = spliced op φs := by
  rcases spliced_of_combine built with one | ⟨-, rfl⟩
  · have mem : ψ ∈ spliced op φs := by rw [one]; exact List.mem_cons_self
    rw [one, membersOf_of_not (WellFormed.of_mem_spliced members mem).2]
  · rw [membersOf, if_pos rfl]

end ClausalForm.Formula
