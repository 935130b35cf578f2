import ClausalForm.Proofs.WellFormed
import ClausalForm.Semantics

/-! # Laws of connectives and quantifiers

The laws by which quantifiers are merged and moved, each stated once for both connectives and once
for both quantifiers:

* **`Connective.joins_append`**, **`Connective.joins_perm`**: members may be grouped and reordered.
* **`Formula.holds_quantified_congr`**: only the bound variables with a free occurrence count.
* **`Formula.holds_quantified_quantified`**: nested quantifiers of one kind.
* **`Formula.holds_pulled`**: a quantifier moved over siblings in which its variables are not free.
* **`Formula.holds_distributed`**: a quantifier over the connective that it distributes over. -/

namespace ClausalForm

/-! ## Connectives -/

namespace Connective

/-- `and.Joins []`: a conjunction of nothing holds. -/
@[simp] theorem and_joins_nil : and.Joins [] := fun _ mem => nomatch mem

/-- `and.Joins (p :: ps)`: a conjunction holds if its first member and the others do. -/
@[simp] theorem and_joins_cons (p : Prop) (ps : List Prop) :
    and.Joins (p :: ps) ↔ p ∧ and.Joins ps := List.forall_mem_cons

/-- `¬ or.Joins []`: a disjunction of nothing does not hold. -/
@[simp] theorem or_joins_nil : ¬ or.Joins [] := fun ⟨_, mem, _⟩ => nomatch mem

/-- `or.Joins (p :: ps)`: a disjunction holds if its first member or one of the others does. -/
@[simp] theorem or_joins_cons (p : Prop) (ps : List Prop) :
    or.Joins (p :: ps) ↔ p ∨ or.Joins ps := by
  constructor
  · rintro ⟨r, mem, h⟩
    rcases List.mem_cons.1 mem with rfl | rest
    · exact .inl h
    · exact .inr ⟨r, rest, h⟩
  · rintro (h | ⟨r, mem, h⟩)
    · exact ⟨p, List.mem_cons_self, h⟩
    · exact ⟨r, List.mem_cons_of_mem _ mem, h⟩

/-- `op.Joins [p]`: one member stands for itself. -/
@[simp] theorem joins_singleton (op : Connective) (p : Prop) : op.Joins [p] ↔ p := by
  cases op <;> simp

/-- `op.Joins (p :: ps)`: the first member may be joined with the connective of the others. -/
theorem joins_cons (op : Connective) (p : Prop) (ps : List Prop) :
    op.Joins (p :: ps) ↔ op.Joins [p, op.Joins ps] := by
  cases op <;> simp

/-- `op.Joins (ps ++ qs)`: two parts of the members may be joined on their own. -/
theorem joins_append (op : Connective) (ps qs : List Prop) :
    op.Joins (ps ++ qs) ↔ op.Joins [op.Joins ps, op.Joins qs] := by
  induction ps with
  | nil => cases op <;> simp
  | cons p ps ih =>
    rw [List.cons_append]
    cases op with
    | and => simp only [and_joins_cons, and_joins_nil, and_true] at ih ⊢; rw [ih, and_assoc]
    | or => simp only [or_joins_cons, or_joins_nil, or_false] at ih ⊢; rw [ih, or_assoc]

/-- `op.Joins (as.map f)`: members that have the same truth may be exchanged. -/
theorem joins_congr (op : Connective) {α : Type} {as : List α} {f g : α → Prop}
    (same : ∀ a ∈ as, f a ↔ g a) : op.Joins (as.map f) ↔ op.Joins (as.map g) := by
  rw [List.map_congr_left fun a mem => propext (same a mem)]

/-- Two members, each exchanged for one with the same truth. -/
theorem joins_pair_congr (op : Connective) {p p' r r' : Prop} (first : p ↔ p') (second : r ↔ r') :
    op.Joins [p, r] ↔ op.Joins [p', r'] := by
  rw [propext first, propext second]

/-- `op.Joins (as.flatMap f)`: groups of members may be joined one by one. -/
theorem joins_flatMap (op : Connective) {α : Type} (as : List α) (f : α → List Prop) :
    op.Joins (as.flatMap f) ↔ op.Joins (as.map fun a => op.Joins (f a)) := by
  induction as with
  | nil => rfl
  | cons a as ih =>
    rw [List.flatMap_cons, List.map_cons, joins_append, joins_cons op (op.Joins (f a)) (as.map _)]
    exact joins_pair_congr op Iff.rfl ih

/-- The order of the members does not matter. -/
theorem joins_perm (op : Connective) {ps qs : List Prop} (perm : ps.Perm qs) :
    op.Joins ps ↔ op.Joins qs := by
  cases op with
  | and => exact ⟨fun h p mem => h p (perm.mem_iff.2 mem), fun h p mem => h p (perm.mem_iff.1 mem)⟩
  | or =>
    constructor
    · rintro ⟨p, mem, h⟩
      exact ⟨p, perm.mem_iff.1 mem, h⟩
    · rintro ⟨p, mem, h⟩
      exact ⟨p, perm.mem_iff.2 mem, h⟩

/-- **De Morgan's laws.** `op.dual.Joins (ps.map Not)` is the negation of `op.Joins ps`. -/
theorem joins_dual (op : Connective) (ps : List Prop) :
    op.dual.Joins (ps.map Not) ↔ ¬ op.Joins ps := by
  induction ps with
  | nil => cases op <;> simp [dual]
  | cons p ps ih =>
    rw [List.map_cons]
    cases op with
    | and =>
      rw [dual] at ih ⊢
      rw [or_joins_cons, and_joins_cons, ih, Classical.not_and_iff_not_or_not]
    | or =>
      rw [dual] at ih ⊢
      rw [or_joins_cons, and_joins_cons, ih, not_or]

end Connective

/-! ## Quantifiers -/

namespace Quantifier

variable {α : Type} {among p r : α → Prop}

/-- `q.dual ≠ q`: no quantifier is its own dual. -/
theorem dual_ne (q : Quantifier) : q.dual ≠ q := by cases q <;> decide

/-- `r = q ∨ r = q.dual`: there are no quantifiers but one and its dual. -/
theorem eq_or_eq_dual (q r : Quantifier) : r = q ∨ r = q.dual := by
  cases q <;> cases r <;> decide

/-- A property of all that is ranged over may be exchanged. -/
theorem ranges_iff (q : Quantifier) (same : ∀ a, among a → (p a ↔ r a)) :
    q.Ranges among p ↔ q.Ranges among r :=
  q.ranges_congr (fun a h => ⟨a, h, same a h⟩) fun a h => ⟨a, h, same a h⟩

/-- `q.Ranges among fun _ => p`: a fact that does not depend on what is ranged over. -/
theorem ranges_const (q : Quantifier) (some : ∃ a, among a) (p : Prop) :
    (q.Ranges among fun _ => p) ↔ p := by
  obtain ⟨a, ha⟩ := some
  cases q with
  | universal => exact ⟨fun h => h a ha, fun h _ _ => h⟩
  | existential =>
    constructor
    · rintro ⟨_, _, h⟩
      exact h
    · intro h
      exact ⟨a, ha, h⟩

/-- `q.dual.Ranges`: the duality of the quantifiers. -/
theorem ranges_dual (q : Quantifier) :
    (q.dual.Ranges among fun a => ¬ p a) ↔ ¬ q.Ranges among p := by
  cases q <;> simp [Ranges, dual]

/-- `op.Joins [q.Ranges among p, r]`: a quantifier may be moved over a fact that does not depend on
what it ranges over. -/
theorem joins_ranges (op : Connective) (q : Quantifier) (some : ∃ a, among a) (r : Prop) :
    op.Joins [q.Ranges among p, r] ↔ q.Ranges among fun a => op.Joins [p a, r] := by
  obtain ⟨a, ha⟩ := some
  cases op with
  | and =>
    simp only [Connective.and_joins_cons, Connective.and_joins_nil, and_true]
    cases q with
    | universal =>
      constructor
      · intro h b hb
        exact ⟨h.1 b hb, h.2⟩
      · intro h
        exact ⟨fun b hb => (h b hb).1, (h a ha).2⟩
    | existential =>
      constructor
      · rintro ⟨⟨b, hb, hp⟩, hr⟩
        exact ⟨b, hb, hp, hr⟩
      · rintro ⟨b, hb, hp, hr⟩
        exact ⟨⟨b, hb, hp⟩, hr⟩
  | or =>
    simp only [Connective.or_joins_cons, Connective.or_joins_nil, or_false]
    cases q with
    | universal =>
      -- If the fact does not hold, it is the property that holds of all.
      constructor
      · intro h b hb
        exact h.imp (fun h => h b hb) id
      · intro h
        by_cases hr : r
        · exact .inr hr
        · exact .inl fun b hb => (h b hb).resolve_right hr
    | existential =>
      constructor
      · rintro (⟨b, hb, hp⟩ | hr)
        · exact ⟨b, hb, .inl hp⟩
        · exact ⟨a, ha, .inr hr⟩
      · rintro ⟨b, hb, hp | hr⟩
        · exact .inl ⟨b, hb, hp⟩
        · exact .inr hr

/-- `q.distributesOver`: a quantifier distributes over its connective. -/
theorem joins_ranges_distributing (q : Quantifier) :
    q.distributesOver.Joins [q.Ranges among p, q.Ranges among r] ↔
      q.Ranges among fun a => q.distributesOver.Joins [p a, r a] := by
  cases q with
  | universal =>
    simp only [distributesOver, Connective.and_joins_cons, Connective.and_joins_nil, and_true]
    constructor
    · intro h a ha
      exact ⟨h.1 a ha, h.2 a ha⟩
    · intro h
      exact ⟨fun a ha => (h a ha).1, fun a ha => (h a ha).2⟩
  | existential =>
    simp only [distributesOver, Connective.or_joins_cons, Connective.or_joins_nil, or_false]
    constructor
    · rintro (⟨a, ha, h⟩ | ⟨a, ha, h⟩)
      · exact ⟨a, ha, .inl h⟩
      · exact ⟨a, ha, .inr h⟩
    · rintro ⟨a, ha, h | h⟩
      · exact .inl ⟨a, ha, h⟩
      · exact .inr ⟨a, ha, h⟩

/-- `q.Ranges among fun a => q.Ranges (step a) p`: a quantifier in a quantifier of its kind ranges
over both at once. -/
theorem ranges_ranges (q : Quantifier) {step : α → α → Prop} :
    (q.Ranges among fun a => q.Ranges (step a) p) ↔
      q.Ranges (fun b => ∃ a, among a ∧ step a b) p := by
  cases q with
  | universal =>
    constructor
    · rintro h b ⟨a, ha, hb⟩
      exact h a ha b hb
    · intro h a ha b hb
      exact h b ⟨a, ha, hb⟩
  | existential =>
    constructor
    · rintro ⟨a, ha, b, hb, h⟩
      exact ⟨b, ⟨a, ha, hb⟩, h⟩
    · rintro ⟨b, ⟨a, ha, hb⟩, h⟩
      exact ⟨a, ha, b, hb, h⟩

end Quantifier

/-! ## Valuations -/

namespace Valuation

variable {D : Type}

/-- `v.AgreesOutside xs v`: a valuation agrees with itself. -/
theorem AgreesOutside.refl (xs : List String) (v : Valuation D) : v.AgreesOutside xs v :=
  fun _ _ => rfl

/-- Some valuation agrees with a given one. -/
theorem exists_agreesOutside (xs : List String) (v : Valuation D) : ∃ w, v.AgreesOutside xs w :=
  ⟨v, .refl xs v⟩

/-- `v.AgreesOutside (xs ++ ys) w`: two steps of changing variables are one step of changing all of
them. -/
theorem agreesOutside_append (xs ys : List String) (v w : Valuation D) :
    (∃ u, v.AgreesOutside xs u ∧ u.AgreesOutside ys w) ↔ v.AgreesOutside (xs ++ ys) w := by
  constructor
  · rintro ⟨u, first, second⟩ x hx
    rw [List.mem_append, not_or] at hx
    rw [first x hx.1, second x hx.2]
  · intro both
    -- In between, the variables of the first step have their last values already.
    refine ⟨fun x => if x ∈ xs then w x else v x, fun x hx => (if_neg hx).symm, fun x hx => ?_⟩
    by_cases mem : x ∈ xs
    · exact if_pos mem
    · exact (if_neg mem).trans (both x (by simp [mem, hx]))

end Valuation

/-! ## Formulas -/

namespace Formula

variable {D : Type} {S : Structure D} {v : Valuation D}

/-- `x ∈ φ.freeVariables`: the free variables are those with a free occurrence. -/
@[simp] theorem mem_freeVariables {x : String} {φ : Formula} :
    x ∈ φ.freeVariables ↔ x ∈ φ.freeOccurrences := mem_distinct

/-- `(connective .and φs).Holds S v`: a conjunction holds if all members do. -/
theorem holds_and_iff {φs : List Formula} :
    (Formula.connective .and φs).Holds S v ↔ ∀ φ ∈ φs, φ.Holds S v := by
  rw [Holds]
  exact List.forall_mem_map

/-- `(connective .or φs).Holds S v`: a disjunction holds if some member does. -/
theorem holds_or_iff {φs : List Formula} :
    (Formula.connective .or φs).Holds S v ↔ ∃ φ ∈ φs, φ.Holds S v := by
  rw [Holds]
  constructor
  · rintro ⟨p, mem, h⟩
    obtain ⟨φ, hφ, rfl⟩ := List.mem_map.1 mem
    exact ⟨φ, hφ, h⟩
  · rintro ⟨φ, hφ, h⟩
    exact ⟨_, List.mem_map_of_mem hφ, h⟩

/-- `(connective op [φ]).Holds S v`: the only member of a connective stands for it. -/
@[simp] theorem holds_singleton {op : Connective} {φ : Formula} :
    (Formula.connective op [φ]).Holds S v ↔ φ.Holds S v := by
  rw [Holds, List.map_singleton, op.joins_singleton]

/-- A connective may be judged by members with the same truth, each in its place. -/
theorem holds_connective_congr (op : Connective) {w : Valuation D} {φs ψs : List Formula}
    (same : List.Forall₂ (fun φ ψ => φ.Holds S v ↔ ψ.Holds S w) φs ψs) :
    (Formula.connective op φs).Holds S v ↔ (Formula.connective op ψs).Holds S w := by
  cases op with
  | and =>
    rw [holds_and_iff, holds_and_iff]
    exact forall_mem_iff_of_forall₂ same fun _ _ => id
  | or =>
    rw [holds_or_iff, holds_or_iff]
    exact exists_mem_iff_of_forall₂ same fun _ _ => id

/-- `φ.Holds S v` depends on the values at the free occurrences of `φ` only. -/
theorem holds_congr_of_agree (S : Structure D) {φ : Formula} {v w : Valuation D}
    (agree : ∀ x ∈ φ.freeOccurrences, v x = w x) : φ.Holds S v ↔ φ.Holds S w :=
  φ.holds_congr S fun x mem => agree x (mem_freeVariables.1 mem)

/-- `v.AgreesOutside xs w`: a change of variables that are not free does not matter. -/
theorem holds_of_agreesOutside (S : Structure D) {xs : List String} {φ : Formula}
    (unused : ∀ x ∈ φ.freeOccurrences, x ∉ xs) {v w : Valuation D}
    (outside : v.AgreesOutside xs w) : φ.Holds S w ↔ φ.Holds S v :=
  holds_congr_of_agree S fun x mem => (outside x (unused x mem)).symm

/-- `quantified q xs φ` and `quantified q ys φ` have the same truth if they bind the same free
variables of the body. -/
theorem holds_quantified_congr {q : Quantifier} {xs ys : List String} {φ : Formula}
    (same : ∀ x ∈ φ.freeOccurrences, x ∈ xs ↔ x ∈ ys) :
    (Formula.quantified q xs φ).Holds S v ↔ (Formula.quantified q ys φ).Holds S v := by
  -- What one list binds is changed on the other list only.
  have exchange : ∀ xs ys : List String, (∀ x ∈ φ.freeOccurrences, x ∈ xs ↔ x ∈ ys) →
      ∀ w, v.AgreesOutside xs w → ∃ u, v.AgreesOutside ys u ∧ (φ.Holds S w ↔ φ.Holds S u) := by
    intro xs ys same w outside
    refine ⟨fun x => if x ∈ ys then w x else v x, fun x hx => (if_neg hx).symm,
      holds_congr_of_agree S fun x mem => ?_⟩
    by_cases inside : x ∈ ys
    · exact (if_pos inside).symm
    · rw [if_neg inside]
      exact (outside x fun hx => inside ((same x mem).1 hx)).symm
  simp only [Holds]
  refine q.ranges_congr (exchange xs ys same) ?_
  intro u outside
  obtain ⟨w, outside', iff⟩ := exchange ys xs (fun x mem => (same x mem).symm) u outside
  exact ⟨w, outside', iff.symm⟩

/-- A quantifier over a body with the same truth. -/
theorem holds_quantified_iff {q : Quantifier} {xs : List String} {φ ψ : Formula}
    (same : ∀ w : Valuation D, φ.Holds S w ↔ ψ.Holds S w) :
    (Formula.quantified q xs φ).Holds S v ↔ (Formula.quantified q xs ψ).Holds S v := by
  simp only [Holds]
  exact q.ranges_iff fun w _ => same w

/-- A quantifier that binds nothing of its body stands for it. -/
theorem holds_quantified_of_unused {q : Quantifier} {xs : List String} {φ : Formula}
    (unused : ∀ x ∈ φ.freeOccurrences, x ∉ xs) :
    (Formula.quantified q xs φ).Holds S v ↔ φ.Holds S v := by
  simp only [Holds]
  rw [q.ranges_iff fun w outside => holds_of_agreesOutside S unused outside,
    q.ranges_const (v.exists_agreesOutside xs)]

/-- `quantified q [] φ`: a quantifier without variables stands for its body. -/
@[simp] theorem holds_quantified_nil {q : Quantifier} {φ : Formula} :
    (Formula.quantified q [] φ).Holds S v ↔ φ.Holds S v :=
  holds_quantified_of_unused fun _ _ => List.not_mem_nil

/-- `quantified q (xs ++ ys) φ`: nested quantifiers of one kind are one quantifier over the
variables of both. -/
theorem holds_quantified_quantified {q : Quantifier} {xs ys : List String} {φ : Formula} :
    (Formula.quantified q xs (.quantified q ys φ)).Holds S v ↔
      (Formula.quantified q (xs ++ ys) φ).Holds S v := by
  simp only [Holds]
  rw [q.ranges_ranges]
  have same := funext fun w => propext (v.agreesOutside_append xs ys w)
  rw [same]

/-- `quantified q (distinct xs) φ`: the variables of a quantifier count once. -/
theorem holds_quantified_distinct {q : Quantifier} {xs : List String} {φ : Formula} :
    (Formula.quantified q (distinct xs) φ).Holds S v ↔ (Formula.quantified q xs φ).Holds S v :=
  holds_quantified_congr fun _ _ => mem_distinct

/-- `quantify q xs φ` has the truth of the quantifier. -/
@[simp] theorem holds_quantify {q : Quantifier} {xs : List String} {φ : Formula} :
    (quantify q xs φ).Holds S v ↔ (Formula.quantified q xs φ).Holds S v := by
  rw [← holds_quantified_distinct]
  unfold quantify
  split
  · next none => rw [none, holds_quantified_nil]
  · exact Iff.rfl

/-- `connective op (quantified q xs φ :: ψs)`: a quantifier may be moved over siblings in which its
variables are not free. -/
theorem holds_pulled (op : Connective) {q : Quantifier} {xs : List String} {φ : Formula}
    {ψs : List Formula} (unused : ∀ ψ ∈ ψs, ∀ x ∈ ψ.freeOccurrences, x ∉ xs) :
    (Formula.connective op (.quantified q xs φ :: ψs)).Holds S v ↔
      (Formula.quantified q xs (.connective op (φ :: ψs))).Holds S v := by
  simp only [Holds, List.map_cons]
  -- The siblings together are one fact that does not depend on what is ranged over.
  rw [op.joins_cons, q.joins_ranges op (v.exists_agreesOutside xs)]
  refine q.ranges_iff ?_
  intro w outside
  rw [op.joins_cons (φ.Holds S w) (ψs.map _)]
  refine op.joins_pair_congr Iff.rfl (op.joins_congr ?_)
  intro ψ mem
  exact (holds_of_agreesOutside S (unused ψ mem) outside).symm

/-- `connective q.distributesOver [quantified q xs φ, quantified q xs ψ]`: a quantifier over the two
members of the connective that it distributes over. -/
theorem holds_distributed {q : Quantifier} {xs : List String} {φ ψ : Formula} :
    (Formula.connective q.distributesOver [.quantified q xs φ, .quantified q xs ψ]).Holds S v ↔
      (Formula.quantified q xs (.connective q.distributesOver [φ, ψ])).Holds S v := by
  simp only [Holds, List.map_cons, List.map_nil]
  exact q.joins_ranges_distributing

/-- Two members of a connective, each exchanged for one with the same truth. -/
theorem holds_pair_congr (op : Connective) {φ ψ φ' ψ' : Formula}
    (first : φ.Holds S v ↔ φ'.Holds S v) (second : ψ.Holds S v ↔ ψ'.Holds S v) :
    (Formula.connective op [φ, ψ]).Holds S v ↔ (Formula.connective op [φ', ψ']).Holds S v := by
  simp only [Holds, List.map_cons, List.map_nil]
  exact op.joins_pair_congr first second

/-- The members of a connective may be reordered. -/
theorem holds_connective_perm (op : Connective) {φs ψs : List Formula} (perm : φs.Perm ψs) :
    (Formula.connective op φs).Holds S v ↔ (Formula.connective op ψs).Holds S v := by
  simp only [Holds]
  exact op.joins_perm (perm.map _)

/-- `spliced op φs`: splicing the members of a connective keeps its truth. -/
theorem holds_spliced (op : Connective) (φs : List Formula) :
    (Formula.connective op (spliced op φs)).Holds S v ↔ (Formula.connective op φs).Holds S v := by
  simp only [Holds, spliced, List.map_flatMap]
  rw [op.joins_flatMap]
  refine op.joins_congr ?_
  intro φ _
  unfold membersOf
  split
  · split
    · next same => rw [same, Holds]
    · rw [List.map_singleton, op.joins_singleton]
  · rw [List.map_singleton, op.joins_singleton]

/-- `combine op φs = .ok ψ`: a connective that was built has the truth of the connective of its
parts. -/
theorem holds_combine {op : Connective} {φs : List Formula} {ψ : Formula}
    (built : combine op φs = .ok ψ) :
    ψ.Holds S v ↔ (Formula.connective op φs).Holds S v := by
  rw [← holds_spliced]
  rcases spliced_of_combine built with one | ⟨-, rfl⟩
  · rw [one, holds_singleton]
  · exact Iff.rfl

end Formula

end ClausalForm
