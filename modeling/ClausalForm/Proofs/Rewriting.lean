import ClausalForm.Proofs.Signature
import ClausalForm.Proofs.Truth

/-! # Rewriting a formula

A pass is correct step by step: each step replaces a formula by one that says the same, uses the
same predicates and, where no variable is bound twice, has its variables.

* **`Formula.Rewrites`**: one formula may replace another one.
* **`Formula.Rewrites.append`**, **`Formula.Rewrites.perm`**, **`Formula.Rewrites.connective`**:
  the members of a connective replaced, in parts or one by one, and reordered.
* **`Formula.Rewrites.pull`**: a quantifier moved over its siblings. -/

namespace ClausalForm.Formula

variable {q : Quantifier} {op : Connective} {xs : List String} {φ ψ χ : Formula}
  {φs ψs φs' ψs' before after : List Formula}

/-- `ψ` may replace `φ`: it has the same truth everywhere, the same predicates, and the variables of
`φ` if these are separated. -/
structure Rewrites (φ ψ : Formula) : Prop where
  holds : ∀ {D : Type} (S : Structure D) (v : Valuation D), ψ.Holds S v ↔ φ.Holds S v
  signature : ∀ p, p ∈ ψ.signature ↔ p ∈ φ.signature
  within : φ.Separated → ψ.Within φ

namespace Rewrites

/-- `Rewrites φ φ`: every formula may replace itself. -/
theorem refl (φ : Formula) : Rewrites φ φ :=
  ⟨fun _ _ => Iff.rfl, fun _ => Iff.rfl, Separated.within⟩

/-- `Rewrites φ χ`: one replacement after another. -/
theorem trans (first : Rewrites φ ψ) (second : Rewrites ψ χ) : Rewrites φ χ := by
  refine ⟨fun S v => (second.holds S v).trans (first.holds S v),
    fun p => (second.signature p).trans (first.signature p), fun separated => ?_⟩
  have within := first.within separated
  exact (second.within (separated.of_within within)).trans within

/-- `Rewrites φ ψ` for a formula with the truth, the predicates and the variables of another one, in
the same order. -/
theorem of_same_variables
    (holds : ∀ {D : Type} (S : Structure D) (v : Valuation D), ψ.Holds S v ↔ φ.Holds S v)
    (signature : ψ.signature = φ.signature) (free : ψ.freeOccurrences = φ.freeOccurrences)
    (bound : ψ.boundVariables = φ.boundVariables) : Rewrites φ ψ :=
  ⟨holds, fun _ => by rw [signature], fun separated =>
    ⟨fun _ => by rw [free], fun _ => by rw [bound]; exact id,
      by rw [bound]; exact separated.nodup⟩⟩

/-- `φ.Equivalent ψ`: a formula that replaces another one says the same. -/
theorem equivalent (h : Rewrites φ ψ) : Equivalent φ ψ := fun _ _ S v => (h.holds S v).symm

/-- `ψ.Separated`: what replaces a formula with separated variables has separated variables. -/
theorem separated (h : Rewrites φ ψ) (separated : φ.Separated) : ψ.Separated :=
  separated.of_within (h.within separated)

/-! ## Connectives -/

/-- `φs.Perm ψs`: the members of a connective reordered. -/
theorem perm (perm : φs.Perm ψs) : Rewrites (.connective op φs) (.connective op ψs) :=
  ⟨fun _ _ => holds_connective_perm op perm.symm,
    fun p => by simpa using (perm.symm.flatMap_right Formula.signature).mem_iff (a := p),
    fun separated => separated.within.perm perm⟩

/-- `Rewrites` on `φs ++ ψs`: two parts of the members replaced, each as a connective of its own. -/
theorem append (left : Rewrites (.connective op φs) (.connective op φs'))
    (right : Rewrites (.connective op ψs) (.connective op ψs')) :
    Rewrites (.connective op (φs ++ ψs)) (.connective op (φs' ++ ψs')) := by
  refine ⟨?_, ?_, ?_⟩
  · intro D S v
    simp only [Holds, List.map_append]
    rw [op.joins_append, op.joins_append (φs.map _)]
    exact op.joins_pair_congr (by simpa only [Holds] using left.holds S v)
      (by simpa only [Holds] using right.holds S v)
  · intro p
    have first := left.signature p
    have second := right.signature p
    rw [signature_connective, signature_connective] at first second
    rw [signature_connective, signature_connective, List.flatMap_append, List.flatMap_append,
      List.mem_append, List.mem_append, first, second]
  · intro separated
    obtain ⟨first, second, -⟩ := separated_append_iff.1 separated
    exact .append separated (left.within first) (right.within second)

/-- The only member of a connective replaced. -/
theorem singleton (h : Rewrites φ ψ) : Rewrites (.connective op [φ]) (.connective op [ψ]) := by
  refine ⟨?_, ?_, ?_⟩
  · intro D S v
    rw [holds_singleton, holds_singleton]
    exact h.holds S v
  · intro p
    simpa using h.signature p
  · intro separated
    have within := h.within (separated_singleton_iff.1 separated)
    exact within_singleton_iff.2 (within_singleton_right_iff.2 within)

/-- `Rewrites (connective op [φ]) φ`: a connective of one member replaced by the member. -/
theorem of_singleton : Rewrites (.connective op [φ]) φ := by
  refine ⟨fun S v => holds_singleton.symm, fun p => by simp, fun separated => ?_⟩
  exact within_singleton_right_iff.2 (separated_singleton_iff.1 separated).within

/-- A connective replaced by one formula, as the only member. -/
theorem to_singleton (h : Rewrites (.connective op φs) ψ) :
    Rewrites (.connective op φs) (.connective op [ψ]) := by
  refine ⟨fun S v => ?_, fun p => ?_, fun separated => within_singleton_iff.2 (h.within separated)⟩
  · rw [holds_singleton, h.holds S v]
  · simpa using h.signature p

/-- `List.Forall₂ Rewrites φs ψs`: the members of a connective replaced one by one. -/
theorem connective (each : List.Forall₂ Rewrites φs ψs) :
    Rewrites (.connective op φs) (.connective op ψs) := by
  induction each with
  | nil => exact refl _
  | @cons φ ψ φs ψs first _ ih =>
    rw [← List.singleton_append, ← List.singleton_append (x := ψ)]
    exact append first.singleton ih

/-- `φs ++ [connective op ψs]`: the members of a member of the same kind taken in. -/
theorem splice :
    Rewrites (.connective op (φs ++ [.connective op ψs])) (.connective op (φs ++ ψs)) :=
  append (refl _) of_singleton

/-- `combine op φs = .ok ψ`: a connective as it is built. -/
theorem of_combine (built : combine op φs = .ok ψ) : Rewrites (.connective op φs) ψ :=
  ⟨fun _ _ => holds_combine built,
    fun _ => by rw [signature_of_combine built, signature_connective],
    fun separated => .of_combine separated built⟩

/-! ## Quantifiers -/

/-- The body of a quantifier replaced. -/
theorem quantified (body : Rewrites φ ψ) : Rewrites (.quantified q xs φ) (.quantified q xs ψ) :=
  ⟨fun S _ => holds_quantified_iff fun w => body.holds S w,
    fun p => by rw [signature_quantified, signature_quantified, body.signature p],
    fun separated => .quantified separated (body.within separated.body)⟩

/-- `quantified q [] φ`: a quantifier over nothing. -/
theorem quantified_nil : Rewrites φ (.quantified q [] φ) := by
  refine ⟨fun S v => holds_quantified_nil, fun p => by rw [signature_quantified],
    fun separated => ⟨fun x => ?_, fun x => ?_, ?_⟩⟩
  · simp only [mem_freeOccurrences_quantified, List.not_mem_nil, not_false_eq_true, and_true]
  · rw [boundVariables_quantified, List.nil_append]
    exact id
  · rw [boundVariables_quantified, List.nil_append]
    exact separated.nodup

/-- `quantified q (xs ++ ys) φ`: two nested quantifiers of one kind put together. -/
theorem nested {ys : List String} :
    Rewrites (.quantified q xs (.quantified q ys φ)) (.quantified q (xs ++ ys) φ) := by
  refine ⟨fun _ _ => holds_quantified_quantified.symm, fun p => by simp, fun separated => ?_⟩
  have bound : (Formula.quantified q (xs ++ ys) φ).boundVariables =
      (Formula.quantified q xs (.quantified q ys φ)).boundVariables := by
    simp only [boundVariables_quantified, List.append_assoc]
  refine ⟨fun x => ?_, fun x mem => bound ▸ mem, bound ▸ separated.nodup⟩
  simp only [mem_freeOccurrences_quantified, List.mem_append, not_or]
  exact ⟨fun h => ⟨⟨h.1, h.2.2⟩, h.2.1⟩, fun h => ⟨h.1.1, h.2, h.1.2⟩⟩

/-- `before ++ quantified q xs φ :: after`: a quantifier moved over siblings in which its variables
are not free. -/
theorem pull (unused : ∀ ψ ∈ before ++ after, ∀ x ∈ ψ.freeOccurrences, x ∉ xs) :
    Rewrites (.connective op (before ++ .quantified q xs φ :: after))
      (.quantified q xs (.connective op (before ++ φ :: after))) := by
  refine ⟨?_, fun p => by simp, ?_⟩
  · intro D S v
    rw [holds_connective_perm op (List.perm_middle (a := .quantified q xs φ)),
      holds_pulled op unused]
    exact holds_quantified_iff fun w => holds_connective_perm op List.perm_middle
  · intro separated
    have nodup := separated.nodup
    -- The variables that are bound, with those of the quantifier in front.
    have order :
      (Formula.quantified q xs (.connective op (before ++ φ :: after))).boundVariables.Perm
        (Formula.connective op (before ++ .quantified q xs φ :: after)).boundVariables := by
      simp only [boundVariables_quantified, boundVariables_connective, List.flatMap_append,
        List.flatMap_cons, List.append_assoc]
      exact List.perm_append_comm_assoc ..
    refine ⟨fun x => ?_, fun x => order.mem_iff.1, order.nodup_iff.2 nodup⟩
    simp only [mem_freeOccurrences_quantified, freeOccurrences_connective, List.flatMap_append,
      List.flatMap_cons, List.mem_append]
    have shielded : ∀ x ∈ (before ++ after).flatMap freeOccurrences, x ∉ xs :=
      List.forall_mem_flatMap.2 unused
    rw [List.flatMap_append, List.forall_mem_append] at shielded
    have left := shielded.1 x
    have right := shielded.2 x
    -- Only occurrences in the body are shielded by the quantifier before and after.
    grind

end Rewrites

end ClausalForm.Formula
