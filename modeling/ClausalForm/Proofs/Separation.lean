import ClausalForm.Proofs.WellFormed

/-! # Free and bound variables

The passes may move quantifiers around because no variable is bound twice and none is both bound
and free. This file says how the operations on formulas treat variables.

* **`Formula.flatMap_spliced`**: splicing loses nothing that is collected from the members.
* **`Formula.Separated`**: no variable is bound twice, and none is both bound and free.
* **`Formula.Within`**: a formula with the free variables of another one, that binds only variables
  which the other one binds, each of them once. A formula within a separated one is separated. -/

namespace ClausalForm.Formula

/-! ## Collecting from the members -/

section Collected

variable {α : Type} {collect : Formula → List α}
  (members : ∀ op φs, collect (.connective op φs) = φs.flatMap collect)

include members

/-- `(φ.membersOf op).flatMap collect`: what is collected from the members of a formula is collected
from the formula. -/
theorem flatMap_membersOf (op : Connective) (φ : Formula) :
    (φ.membersOf op).flatMap collect = collect φ := by
  unfold membersOf
  split
  · split
    · rw [members]
    · simp
  · simp

/-- `(spliced op φs).flatMap collect`: splicing loses nothing that is collected from the members. -/
theorem flatMap_spliced (op : Connective) (φs : List Formula) :
    (spliced op φs).flatMap collect = φs.flatMap collect := by
  rw [spliced, List.flatMap_assoc]
  exact List.flatMap_congr fun φ _ => flatMap_membersOf members op φ

/-- `combine op φs = .ok ψ`: what is built has everything that is collected from what it is built
from. -/
theorem collect_of_combine {op : Connective} {φs : List Formula} {ψ : Formula}
    (built : combine op φs = .ok ψ) : collect ψ = φs.flatMap collect := by
  rw [← flatMap_spliced members op φs]
  rcases spliced_of_combine built with one | ⟨-, rfl⟩
  · rw [one, List.flatMap_singleton]
  · rw [members]

end Collected

/-- The free occurrences in an atom are all its occurrences. -/
@[simp] theorem freeOccurrences_atom (a : Atom) :
    (Formula.atom a).freeOccurrences = a.occurrences := by
  rw [freeOccurrences]

/-- An atom binds nothing. -/
@[simp] theorem boundVariables_atom (a : Atom) : (Formula.atom a).boundVariables = [] := by
  rw [boundVariables]

/-- A negation has the free occurrences of what it stands at. -/
@[simp] theorem freeOccurrences_not (φ : Formula) :
    (Formula.not φ).freeOccurrences = φ.freeOccurrences := by
  rw [freeOccurrences]

/-- A negation binds what is bound in what it stands at. -/
@[simp] theorem boundVariables_not (φ : Formula) :
    (Formula.not φ).boundVariables = φ.boundVariables := by
  rw [boundVariables]

/-- The free occurrences in a connective are those in its members. -/
@[simp] theorem freeOccurrences_connective (op : Connective) (φs : List Formula) :
    (Formula.connective op φs).freeOccurrences = φs.flatMap freeOccurrences := by
  rw [freeOccurrences]

/-- The variables bound in a connective are those bound in its members. -/
@[simp] theorem boundVariables_connective (op : Connective) (φs : List Formula) :
    (Formula.connective op φs).boundVariables = φs.flatMap boundVariables := by
  rw [boundVariables]

/-- `x ∈ (quantified q xs φ).freeOccurrences`: a quantifier shields the variables that it binds. -/
@[simp] theorem mem_freeOccurrences_quantified {x : String} {q : Quantifier} {xs : List String}
    {φ : Formula} :
    x ∈ (Formula.quantified q xs φ).freeOccurrences ↔ x ∈ φ.freeOccurrences ∧ x ∉ xs := by
  simp [freeOccurrences]

/-- `xs ++ φ.boundVariables`: a quantifier binds its variables before those of its body. -/
@[simp] theorem boundVariables_quantified (q : Quantifier) (xs : List String) (φ : Formula) :
    (Formula.quantified q xs φ).boundVariables = xs ++ φ.boundVariables := by
  rw [boundVariables]

/-- What is free in a built connective. -/
theorem freeOccurrences_of_combine {op : Connective} {φs : List Formula} {ψ : Formula}
    (built : combine op φs = .ok ψ) : ψ.freeOccurrences = φs.flatMap freeOccurrences :=
  collect_of_combine freeOccurrences_connective built

/-- What a built connective binds. -/
theorem boundVariables_of_combine {op : Connective} {φs : List Formula} {ψ : Formula}
    (built : combine op φs = .ok ψ) : ψ.boundVariables = φs.flatMap boundVariables :=
  collect_of_combine boundVariables_connective built

/-! ## Separated formulas -/

/-- **Separated formulas.** `φ.Separated`: no variable is bound twice, and none is both bound and
free. -/
@[mk_iff] structure Separated (φ : Formula) : Prop where
  nodup : φ.boundVariables.Nodup
  apart : ∀ x ∈ φ.boundVariables, x ∉ φ.freeOccurrences

variable {φ ψ χ : Formula} {φs ψs χs : List Formula} {op op' : Connective} {q : Quantifier}
  {xs : List String}

/-- `(connective op φs).Separated` in terms of the members: what they bind together has no
repetition and is free in none of them. -/
theorem separated_connective_iff : (Formula.connective op φs).Separated ↔
    (φs.flatMap boundVariables).Nodup ∧
      ∀ x ∈ φs.flatMap boundVariables, x ∉ φs.flatMap freeOccurrences := by
  rw [separated_iff, boundVariables_connective, freeOccurrences_connective]

/-- `φs.Perm ψs`: the variables of a separated formula do not depend on the order of the members. -/
theorem Separated.perm (h : (Formula.connective op φs).Separated) (perm : φs.Perm ψs) :
    (Formula.connective op' ψs).Separated := by
  have bound := perm.flatMap_right boundVariables
  have free := perm.flatMap_right freeOccurrences
  rw [separated_connective_iff] at h ⊢
  refine ⟨bound.nodup_iff.1 h.1, ?_⟩
  intro x mem
  rw [← free.mem_iff]
  exact h.2 x (bound.mem_iff.2 mem)

/-- `(connective op (φs ++ ψs)).Separated`: in a separated connective no member binds what another
one binds, or what is free anywhere. -/
theorem separated_append_iff :
    (Formula.connective op (φs ++ ψs)).Separated ↔
      (Formula.connective op φs).Separated ∧ (Formula.connective op ψs).Separated ∧
        (∀ x ∈ φs.flatMap boundVariables, x ∉ ψs.flatMap boundVariables) ∧
        (∀ x ∈ φs.flatMap boundVariables, x ∉ ψs.flatMap freeOccurrences) ∧
        ∀ x ∈ ψs.flatMap boundVariables, x ∉ φs.flatMap freeOccurrences := by
  simp only [separated_connective_iff, List.flatMap_append, List.nodup_append, List.mem_append,
    not_or]
  constructor
  · rintro ⟨⟨left, right, disjoint⟩, apart⟩
    refine ⟨⟨left, ?_⟩, ⟨right, ?_⟩, ?_, ?_, ?_⟩
    · exact fun x mem => (apart x (.inl mem)).1
    · exact fun x mem => (apart x (.inr mem)).2
    · exact fun x hx hy => disjoint x hx x hy rfl
    · exact fun x mem => (apart x (.inl mem)).2
    · exact fun x mem => (apart x (.inr mem)).1
  · rintro ⟨⟨left, leftApart⟩, ⟨right, rightApart⟩, disjoint, leftFree, rightFree⟩
    refine ⟨⟨left, right, ?_⟩, ?_⟩
    · rintro x hx y hy rfl
      exact disjoint x hx hy
    · rintro x (mem | mem)
      · exact ⟨leftApart x mem, leftFree x mem⟩
      · exact ⟨rightFree x mem, rightApart x mem⟩

/-- `(connective op [φ]).Separated`: a connective of one member is separated if the member is. -/
theorem separated_singleton_iff : (Formula.connective op [φ]).Separated ↔ φ.Separated := by
  rw [separated_connective_iff, separated_iff, List.flatMap_singleton, List.flatMap_singleton]

/-- The connective does not matter. -/
theorem Separated.change (h : (Formula.connective op φs).Separated) (op' : Connective) :
    (Formula.connective op' φs).Separated := h.perm (.refl φs)

/-- `φ ∈ φs`: the members of a separated connective are separated. -/
theorem Separated.member (h : (Formula.connective op φs).Separated) (mem : φ ∈ φs) :
    φ.Separated := by
  obtain ⟨before, after, rfl⟩ := List.append_of_mem mem
  have tail := (separated_append_iff.1 h).2.1
  rw [← List.singleton_append] at tail
  exact separated_singleton_iff.1 (separated_append_iff.1 tail).1

/-- The body of a separated quantifier is separated. -/
theorem Separated.body (h : (Formula.quantified q xs φ).Separated) : φ.Separated := by
  obtain ⟨nodup, apart⟩ := h
  rw [boundVariables_quantified, List.nodup_append] at nodup
  refine ⟨nodup.2.1, ?_⟩
  intro x bound free
  refine apart x (by simp [bound]) (mem_freeOccurrences_quantified.2 ⟨free, ?_⟩)
  intro mem
  exact nodup.2.2 x mem x bound rfl

/-! ## One formula within another -/

/-- The free variables of `φ`, and bound variables that `φ` binds, each once. -/
@[mk_iff] structure Within (ψ φ : Formula) : Prop where
  free : ∀ x, x ∈ ψ.freeOccurrences ↔ x ∈ φ.freeOccurrences
  bound : ∀ x ∈ ψ.boundVariables, x ∈ φ.boundVariables
  nodup : ψ.boundVariables.Nodup

/-- `φ.Within φ`: a separated formula is within itself. -/
theorem Separated.within (h : φ.Separated) : φ.Within φ := ⟨fun _ => Iff.rfl, fun _ => id, h.nodup⟩

/-- `ψ.Within φ`: what is within a separated formula is separated. -/
theorem Separated.of_within (h : φ.Separated) (within : ψ.Within φ) : ψ.Separated :=
  ⟨within.nodup, fun x mem free => h.apart x (within.bound x mem) ((within.free x).1 free)⟩

/-- `χ.Within φ`: a formula within one that is within a third is within the third. -/
theorem Within.trans (first : χ.Within ψ) (second : ψ.Within φ) : χ.Within φ :=
  ⟨fun x => (first.free x).trans (second.free x), fun x mem => second.bound x (first.bound x mem),
    first.nodup⟩

/-- The order of the members does not matter. -/
theorem Within.perm (h : (Formula.connective op φs).Within φ) (perm : φs.Perm ψs) :
    (Formula.connective op' ψs).Within φ := by
  have bound := perm.flatMap_right boundVariables
  have free := perm.flatMap_right freeOccurrences
  rw [within_iff, freeOccurrences_connective, boundVariables_connective] at h ⊢
  obtain ⟨same, known, nodup⟩ := h
  refine ⟨fun x => ?_, fun x mem => known x (bound.mem_iff.2 mem), bound.nodup_iff.1 nodup⟩
  rw [← same, free.mem_iff]

/-- `Within` on two parts of a separated connective: both may be replaced by what is within them. -/
theorem Within.append {φs' ψs' : List Formula}
    (h : (Formula.connective op (φs ++ ψs)).Separated)
    (left : (Formula.connective op φs').Within (.connective op φs))
    (right : (Formula.connective op ψs').Within (.connective op ψs)) :
    (Formula.connective op (φs' ++ ψs')).Within (.connective op (φs ++ ψs)) := by
  obtain ⟨-, -, disjoint, -, -⟩ := separated_append_iff.1 h
  simp only [within_iff, freeOccurrences_connective, boundVariables_connective,
    List.flatMap_append, List.mem_append] at left right ⊢
  obtain ⟨leftFree, leftBound, leftNodup⟩ := left
  obtain ⟨rightFree, rightBound, rightNodup⟩ := right
  refine ⟨fun x => or_congr (leftFree x) (rightFree x),
    fun x mem => mem.imp (leftBound x) (rightBound x), ?_⟩
  -- What the parts bind now they bound before, and then they shared nothing.
  refine List.nodup_append.2 ⟨leftNodup, rightNodup, ?_⟩
  rintro x hx y hy rfl
  exact disjoint x (leftBound x hx) (rightBound x hy)

/-- `(connective op [ψ]).Within φ`: one formula within another one, as the only member. -/
theorem within_singleton_iff : (Formula.connective op [ψ]).Within φ ↔ ψ.Within φ := by
  simp only [within_iff, freeOccurrences_connective, boundVariables_connective,
    List.flatMap_singleton]

/-- `ψ.Within (connective op [φ])`: a formula within another one that is the only member. -/
theorem within_singleton_right_iff : ψ.Within (.connective op [φ]) ↔ ψ.Within φ := by
  simp only [within_iff, freeOccurrences_connective, boundVariables_connective,
    List.flatMap_singleton]

/-- The body of a separated quantifier may be replaced. -/
theorem Within.quantified (h : (Formula.quantified q xs φ).Separated) (body : ψ.Within φ) :
    (Formula.quantified q xs ψ).Within (.quantified q xs φ) := by
  have nodup := h.nodup
  rw [boundVariables_quantified, List.nodup_append] at nodup
  refine ⟨?_, ?_, ?_⟩
  · intro x
    rw [mem_freeOccurrences_quantified, mem_freeOccurrences_quantified, body.free x]
  · intro x mem
    rw [boundVariables_quantified, List.mem_append] at mem ⊢
    exact mem.imp_right (body.bound x)
  · rw [boundVariables_quantified, List.nodup_append]
    exact ⟨nodup.1, body.nodup, fun x hx y hy => nodup.2.2 x hx y (body.bound y hy)⟩

/-- `combine op φs = .ok ψ`: what is built from formulas is within their connective. -/
theorem Within.of_combine (h : (Formula.connective op φs).Separated)
    (built : combine op φs = .ok ψ) : ψ.Within (.connective op φs) := by
  have nodup := h.nodup
  rw [boundVariables_connective] at nodup
  refine ⟨?_, ?_, ?_⟩
  · intro x
    rw [freeOccurrences_of_combine built, freeOccurrences_connective]
  · intro x mem
    rwa [boundVariables_of_combine built, ← boundVariables_connective op] at mem
  · rwa [boundVariables_of_combine built]

end ClausalForm.Formula
