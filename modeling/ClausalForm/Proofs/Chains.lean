import ClausalForm.Clause
import ClausalForm.Proofs.Renaming
import ClausalForm.Proofs.Rewriting
import ClausalForm.Proofs.Subformulas

/-! # Chains of quantifiers

`Formula.simplify` makes one quantifier of each chain of directly nested quantifiers of one kind.

* **`Formula.holds_simplify`**: the truth of every formula is kept, also if a quantifier of a chain
  binds a variable of an outer one again.
* **`Formula.freeOccurrences_simplify`**: so are its free occurrences.
* **`Formula.WellFormed.simplify`**, **`Formula.within_simplify`**: so are the shape and, if no
  variable is bound twice, the variables.
* **`Formula.IsUnchained`**: no quantifier has a quantifier of its kind as its body, and none binds
  a variable twice.
* **`Formula.isUnchained_simplify`**, **`Formula.simplify_eq_self_iff`**: the results of simplifying
  are such formulas, and exactly these are left as they are.
* **`Formula.simplify_leaves_no_chains`**: all of it, for every formula. -/

namespace ClausalForm.Formula

variable {D : Type} {S : Structure D} {op : Connective} {q : Quantifier} {xs : List String}
  {φ : Formula} {φs : List Formula}

/-! ## Absorbing one quantifier -/

/-- `absorb q xs φ`: a body that is a quantifier of the same kind is absorbed, and any other body
stays where it is. -/
theorem absorb_cases (q : Quantifier) (xs : List String) (φ : Formula) :
    (∃ ys ψ, φ = .quantified q ys ψ ∧ absorb q xs φ = .quantified q (distinct (xs ++ ys)) ψ) ∨
      φ.quantifier? ≠ some q ∧ absorb q xs φ = .quantified q (distinct xs) φ := by
  cases φ with
  | quantified r ys ψ =>
    rw [absorb]
    by_cases same : r = q
    · exact .inl ⟨ys, ψ, by rw [same], if_pos same⟩
    · exact .inr ⟨fun kind => same (Option.some.inj kind), if_neg same⟩
  | _ => exact .inr ⟨by simp [quantifier?], rfl⟩

/-- `absorb q xs φ` is a quantifier of the kind `q`. -/
theorem exists_absorb (q : Quantifier) (xs : List String) (φ : Formula) :
    ∃ ys ψ, absorb q xs φ = .quantified q ys ψ := by
  rcases absorb_cases q xs φ with ⟨ys, ψ, -, same⟩ | ⟨-, same⟩
  · exact ⟨_, _, same⟩
  · exact ⟨_, _, same⟩

/-- `absorb q xs φ = .quantified q xs φ`: in front of a body that is no quantifier of its kind, a
quantifier stays what it is. -/
theorem absorb_of_ne (nodup : xs.Nodup) (other : φ.quantifier? ≠ some q) :
    absorb q xs φ = .quantified q xs φ := by
  rcases absorb_cases q xs φ with ⟨ys, ψ, rfl, -⟩ | ⟨-, same⟩
  · exact absurd rfl other
  · rw [same, distinct_eq_self_iff.2 nodup]

/-- `absorb q xs φ` keeps the truth of the quantifier over `φ`. -/
theorem holds_absorb {v : Valuation D} :
    (absorb q xs φ).Holds S v ↔ (Formula.quantified q xs φ).Holds S v := by
  rcases absorb_cases q xs φ with ⟨ys, ψ, rfl, same⟩ | ⟨-, same⟩
  · rw [same, holds_quantified_distinct, holds_quantified_quantified]
  · rw [same, holds_quantified_distinct]

/-- `absorb q xs φ` keeps the free occurrences. -/
theorem freeOccurrences_absorb :
    (absorb q xs φ).freeOccurrences = (Formula.quantified q xs φ).freeOccurrences := by
  rcases absorb_cases q xs φ with ⟨ys, ψ, rfl, same⟩ | ⟨-, same⟩
  · -- What both quantifiers shield is shielded by the one over the variables of both.
    simp only [same, freeOccurrences, List.filter_filter]
    refine List.filter_congr ?_
    intro x _
    simp
  · simp only [same, freeOccurrences, List.contains_eq_mem, mem_distinct]

/-- `xs ++ φ.boundVariables`: variables that are not bound twice are bound in the same order. -/
theorem boundVariables_absorb (nodup : (xs ++ φ.boundVariables).Nodup) :
    (absorb q xs φ).boundVariables = xs ++ φ.boundVariables := by
  rcases absorb_cases q xs φ with ⟨ys, ψ, rfl, same⟩ | ⟨-, same⟩
  · rw [boundVariables_quantified, ← List.append_assoc] at nodup
    rw [same, boundVariables_quantified, boundVariables_quantified,
      distinct_eq_self_iff.2 (List.nodup_append.1 nodup).1, List.append_assoc]
  · rw [same, boundVariables_quantified, distinct_eq_self_iff.2 (List.nodup_append.1 nodup).1]

/-- `absorb q xs φ` keeps the predicates. -/
theorem signature_absorb : (absorb q xs φ).signature = φ.signature := by
  rcases absorb_cases q xs φ with ⟨ys, ψ, rfl, same⟩ | ⟨-, same⟩
  · rw [same, signature_quantified, signature_quantified]
  · rw [same, signature_quantified]

/-- `absorb q xs φ` keeps what the quantifiers enclose. -/
theorem matrix_absorb : (absorb q xs φ).matrix = φ.matrix := by
  rcases absorb_cases q xs φ with ⟨ys, ψ, rfl, same⟩ | ⟨-, same⟩
  · rw [same, matrix, matrix]
  · rw [same, matrix]

/-- `absorb q xs φ` of a well-formed body is well-formed. -/
theorem WellFormed.absorb {leaves : Leaves} (binder : IsBinder xs) (body : φ.WellFormed leaves) :
    (absorb q xs φ).WellFormed leaves := by
  rcases absorb_cases q xs φ with ⟨ys, ψ, rfl, same⟩ | ⟨-, same⟩
  · rw [same]
    cases body with
    | quantified binder' body' => exact .quantified (binder.union binder') body'
  · rw [same]
    exact .quantified (.of_distinct binder.some binder.named) body

/-! ## All chains of a formula -/

/-- `φ.simplify.Holds S v ↔ φ.Holds S v`: simplifying keeps the truth of every formula. -/
theorem holds_simplify (φ : Formula) (v : Valuation D) : φ.simplify.Holds S v ↔ φ.Holds S v := by
  induction φ using induction generalizing v with
  | atom a => rw [simplify]
  | not φ ih => simp only [simplify, Holds, ih]
  | connective op φs ih =>
    simp only [simplify, Holds, List.map_map]
    exact op.joins_congr fun φ mem => ih φ mem v
  | quantified q xs φ ih =>
    rw [simplify, holds_absorb]
    exact holds_quantified_iff ih

/-- `φ.simplify.freeOccurrences = φ.freeOccurrences`: simplifying keeps the free occurrences. -/
theorem freeOccurrences_simplify (φ : Formula) :
    φ.simplify.freeOccurrences = φ.freeOccurrences := by
  induction φ using induction with
  | atom a => rw [simplify]
  | not φ ih => rw [simplify, freeOccurrences_not, freeOccurrences_not, ih]
  | connective op φs ih =>
    rw [simplify, freeOccurrences_connective, freeOccurrences_connective, List.flatMap_map]
    exact List.flatMap_congr ih
  | quantified q xs φ ih =>
    rw [simplify, freeOccurrences_absorb, freeOccurrences, ih, freeOccurrences]

/-- `φ.simplify.boundVariables = φ.boundVariables`: variables that are not bound twice are bound in
the same order after simplifying. -/
theorem boundVariables_simplify (nodup : φ.boundVariables.Nodup) :
    φ.simplify.boundVariables = φ.boundVariables := by
  induction φ using induction with
  | atom a => rw [simplify]
  | not φ ih =>
    rw [boundVariables_not] at nodup
    rw [simplify, boundVariables_not, boundVariables_not, ih nodup]
  | connective op φs ih =>
    rw [boundVariables_connective] at nodup
    rw [simplify, boundVariables_connective, boundVariables_connective, List.flatMap_map]
    refine List.flatMap_congr fun φ mem => ih φ mem ?_
    exact (List.pairwise_flatMap.1 nodup).1 φ mem
  | quantified q xs φ ih =>
    rw [boundVariables_quantified] at nodup
    -- The variables that the two quantifiers bind are distinct, so that none is dropped.
    have body := ih (List.nodup_append.1 nodup).2.1
    rw [simplify, boundVariables_absorb (by rwa [body]), body, boundVariables_quantified]

/-- `φ.simplify.signature = φ.signature`: simplifying keeps the predicates. -/
theorem signature_simplify (φ : Formula) : φ.simplify.signature = φ.signature := by
  induction φ using induction with
  | atom a => rw [simplify]
  | not φ ih => rw [simplify, signature_not, signature_not, ih]
  | connective op φs ih =>
    rw [simplify, signature_connective, signature_connective, List.flatMap_map]
    exact List.flatMap_congr ih
  | quantified q xs φ ih => rw [simplify, signature_absorb, ih, signature_quantified]

/-- `φ.simplify.Within φ`: a simplified formula is within the formula, if no variable is bound
twice. -/
theorem within_simplify (nodup : φ.boundVariables.Nodup) : φ.simplify.Within φ := by
  have same := boundVariables_simplify nodup
  exact ⟨fun x => by rw [freeOccurrences_simplify], fun x mem => same ▸ mem, by rwa [same]⟩

/-- `Rewrites φ φ.simplify`: a formula may be simplified. -/
theorem rewrites_simplify (φ : Formula) : Rewrites φ φ.simplify :=
  ⟨fun _ v => holds_simplify φ v, fun _ => by rw [signature_simplify],
    fun separated => within_simplify separated.nodup⟩

/-- Simplifying leaves atoms and other formulas what they are. -/
theorem isAtom_simplify (φ : Formula) : φ.simplify.isAtom = φ.isAtom := by
  cases φ with
  | quantified q xs φ =>
    obtain ⟨ys, ψ, same⟩ := exists_absorb q xs φ.simplify
    rw [simplify, same]
    rfl
  | _ => simp [simplify, isAtom]

/-- Simplifying leaves the kind of a connective alone. -/
theorem isConnective_simplify (op : Connective) (φ : Formula) :
    φ.simplify.isConnective op = φ.isConnective op := by
  cases φ with
  | quantified q xs φ =>
    obtain ⟨ys, ψ, same⟩ := exists_absorb q xs φ.simplify
    rw [simplify, same]
    rfl
  | _ => simp [simplify, isConnective]

/-- `φ.simplify.WellFormed leaves`: a simplified formula is well-formed. -/
theorem WellFormed.simplify {leaves : Leaves} (h : φ.WellFormed leaves) :
    φ.simplify.WellFormed leaves := by
  induction h with
  | atom allowed => rw [Formula.simplify]; exact .atom allowed
  | not allowed _ ih => rw [Formula.simplify]; exact .not (by rwa [isAtom_simplify]) ih
  | connective two flat _ ih =>
    rw [Formula.simplify]
    refine .connective (by rwa [List.length_map]) ?_ ?_
    · intro ψ mem
      obtain ⟨φ, hφ, rfl⟩ := List.mem_map.1 mem
      rw [isConnective_simplify, flat φ hφ]
    · intro ψ mem
      obtain ⟨φ, hφ, rfl⟩ := List.mem_map.1 mem
      exact ih φ hφ
  | quantified binder _ ih => rw [Formula.simplify]; exact .absorb binder ih

/-- `φ.simplify.matrix = φ.matrix.simplify`: what the quantifiers enclose is simplified on its
own. -/
theorem matrix_simplify (φ : Formula) : φ.simplify.matrix = φ.matrix.simplify := by
  induction φ using induction with
  | quantified q xs φ ih => rw [simplify, matrix_absorb, ih, matrix]
  | _ => simp only [simplify, matrix]

/-! ## Formulas without chains -/

/-- **Formulas without chains.** `φ.IsUnchained`: every quantifier in the formula binds each of its
variables once, and its body is no quantifier of the same kind. -/
def IsUnchained (φ : Formula) : Prop :=
  ∀ q xs ψ, .quantified q xs ψ ∈ φ.subformulas → xs.Nodup ∧ ψ.quantifier? ≠ some q

/-- An atom has no chains. -/
theorem isUnchained_atom (a : Atom) : (Formula.atom a).IsUnchained := by
  intro q xs ψ mem
  cases mem_subformulas_atom.1 mem

/-- A negation has the chains of what it stands at. -/
theorem isUnchained_not : φ.not.IsUnchained ↔ φ.IsUnchained := by
  simp [IsUnchained]

/-- A connective has the chains of its members. -/
theorem isUnchained_connective :
    (Formula.connective op φs).IsUnchained ↔ ∀ φ ∈ φs, φ.IsUnchained := by
  simp only [IsUnchained, mem_subformulas_connective, reduceCtorEq, false_or, forall_exists_index,
    and_imp]
  exact ⟨fun h φ hφ q xs ψ mem => h q xs ψ φ hφ mem, fun h q xs ψ φ hφ mem => h φ hφ q xs ψ mem⟩

/-- A quantifier has the chains of its body, and it starts one if the body is a quantifier of its
kind. -/
theorem isUnchained_quantified : (Formula.quantified q xs φ).IsUnchained ↔
    (xs.Nodup ∧ φ.quantifier? ≠ some q) ∧ φ.IsUnchained := by
  simp only [IsUnchained, mem_subformulas_quantified]
  constructor
  · intro h
    exact ⟨h q xs φ (.inl rfl), fun r ys ψ mem => h r ys ψ (.inr mem)⟩
  · rintro ⟨here, inside⟩ r ys ψ (same | mem)
    · cases same
      exact here
    · exact inside r ys ψ mem

/-- `absorb q xs φ` starts no chain. -/
theorem IsUnchained.absorb (h : φ.IsUnchained) : (absorb q xs φ).IsUnchained := by
  rcases absorb_cases q xs φ with ⟨ys, ψ, rfl, same⟩ | ⟨other, same⟩
  · -- The quantifier takes the place of that of the body, which started no chain.
    obtain ⟨⟨-, below⟩, inside⟩ := isUnchained_quantified.1 h
    rw [same]
    exact isUnchained_quantified.2 ⟨⟨nodup_distinct _, below⟩, inside⟩
  · rw [same]
    exact isUnchained_quantified.2 ⟨⟨nodup_distinct xs, other⟩, h⟩

/-- `φ.simplify.IsUnchained`: a simplified formula has no chains. -/
theorem isUnchained_simplify (φ : Formula) : φ.simplify.IsUnchained := by
  induction φ using induction with
  | atom a => rw [simplify]; exact isUnchained_atom a
  | not φ ih => rw [simplify]; exact isUnchained_not.2 ih
  | connective op φs ih =>
    rw [simplify]
    exact isUnchained_connective.2 (List.forall_mem_map.2 ih)
  | quantified q xs φ ih => rw [simplify]; exact ih.absorb

/-- `φ.simplify = φ` for a formula without chains. -/
theorem IsUnchained.simplify_eq (h : φ.IsUnchained) : φ.simplify = φ := by
  induction φ using induction with
  | atom a => rw [simplify]
  | not φ ih => rw [simplify, ih (isUnchained_not.1 h)]
  | connective op φs ih =>
    have members := isUnchained_connective.1 h
    rw [simplify, List.map_congr_left fun φ mem => ih φ mem (members φ mem), List.map_id']
  | quantified q xs φ ih =>
    obtain ⟨⟨nodup, other⟩, inside⟩ := isUnchained_quantified.1 h
    rw [simplify, ih inside, absorb_of_ne nodup other]

/-- `φ.simplify = φ ↔ φ.IsUnchained`: simplifying leaves exactly those formulas alone that have no
chains and bind no variable twice in one quantifier. -/
theorem simplify_eq_self_iff : φ.simplify = φ ↔ φ.IsUnchained :=
  ⟨fun same => same ▸ isUnchained_simplify φ, IsUnchained.simplify_eq⟩

/-- `φ.quantifierCount = 0`: a formula without quantifiers has no chains, and is left as it is. -/
theorem simplify_of_quantifierCount_eq_zero (none : φ.quantifierCount = 0) : φ.simplify = φ := by
  refine IsUnchained.simplify_eq fun q xs ψ mem => ?_
  cases quantifierCount_of_mem_subformulas none mem

/-- `φ.blocks`: in front of a formula without chains the quantifiers alternate. -/
theorem IsUnchained.isChain_blocks (h : φ.IsUnchained) :
    φ.blocks.IsChain fun b c => b.quantifier ≠ c.quantifier := by
  induction φ using induction with
  | quantified q xs φ ih =>
    obtain ⟨⟨-, other⟩, inside⟩ := isUnchained_quantified.1 h
    have rest := ih inside
    rw [blocks]
    cases φ with
    | quantified r ys ψ =>
      rw [blocks] at rest ⊢
      exact List.isChain_cons_cons.2 ⟨fun same => other (congrArg some same.symm), rest⟩
    | _ => exact .singleton _
  | _ => exact .nil

/-- `φ.simplify.blocks`: no two directly nested quantifiers of a simplified formula are of one
kind. -/
theorem isChain_blocks_simplify (φ : Formula) :
    φ.simplify.blocks.IsChain fun b c => b.quantifier ≠ c.quantifier :=
  (isUnchained_simplify φ).isChain_blocks

/-- **Simplifying leaves no chains.** No quantifier in `φ.simplify` has a quantifier of the same
kind as its body. The free variables and the truth of every formula are kept, and simplifying again
changes nothing. -/
theorem simplify_leaves_no_chains (φ : Formula) :
    (∀ q xs ψ, .quantified q xs ψ ∈ φ.simplify.subformulas → ψ.quantifier? ≠ some q) ∧
      φ.simplify.freeVariables = φ.freeVariables ∧ φ.simplify.simplify = φ.simplify ∧
        φ.simplify.Equivalent φ := by
  refine ⟨?_, ?_, (isUnchained_simplify φ).simplify_eq, ?_⟩
  · intro q xs ψ mem
    exact (isUnchained_simplify φ q xs ψ mem).2
  · rw [freeVariables, freeOccurrences_simplify, freeVariables]
  · intro D _ S v
    exact holds_simplify φ v

/-- A chain that binds the variable `y` of its outer quantifier again, above a quantifier of the
other kind. -/
example : simplify (.quantified .existential ["x", "y"] (.quantified .existential ["y", "z"]
    (.quantified .universal ["x"] (.atom ⟨"P", [.var "x", .var "y"]⟩)))) =
      .quantified .existential ["x", "y", "z"]
        (.quantified .universal ["x"] (.atom ⟨"P", [.var "x", .var "y"]⟩)) := by
  cbv

end ClausalForm.Formula
