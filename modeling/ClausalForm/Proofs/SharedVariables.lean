import ClausalForm.Proofs.Hoisting
import Mathlib

/-! # Quantifiers that share a variable

Two quantifiers of different kinds that are moved out of one connective are checked against their
siblings, but not against each other. If they bind the same variable, the one that goes inside
captures it in the body of the other one. A run in which this does not happen keeps the meaning, and
of two quantifiers over bodies without quantifiers exactly those that share no variable may be moved
out of every connective.

* **`Formula.opposed`**: a connective of a universal and an existential quantifier.
* **`Formula.equivalent_of_movesApart`**: the condition under which meaning is kept, and that it
  cannot be weakened for two quantifiers.
* **`Formula.shared_variable_captured`**: two quantifiers over one variable that change places with
  it. -/

namespace ClausalForm.Formula

variable {op : Connective} {q : Quantifier} {xs ys : List String} {φ ψ χ r : Formula}
  {parent : Option Scope} {φs : List Formula}

/-- `opposed op q xs ys φ ψ`: two quantifiers of different kinds, joined. -/
def opposed (op : Connective) (q : Quantifier) (xs ys : List String) (φ ψ : Formula) : Formula :=
  .connective op [.quantified q xs φ, .quantified q.dual ys ψ]

/-! ## Calls for two quantifiers -/

/-- `coalesceMembers` leaves two quantifiers of different kinds as they are. -/
theorem coalesceMembers_opposed : coalesceMembers op
    [.quantified q xs φ, .quantified q.dual ys ψ] = .ok (opposed op q xs ys φ ψ) := by
  refine coalesceMembers_of_single ?_
  intro r
  cases q <;> cases r <;> simp [isQuantifiedBy, quantifier?, Quantifier.dual]

/-- `c.Makes d`: a call makes calls with no more quantifiers. -/
theorem Call.Makes.quantifierCount_le {c d : Call} (h : c.Makes d) :
    d.formula.quantifierCount ≤ c.formula.quantifierCount := by
  cases h with
  | remainder taken => exact Nat.le_of_lt taken.quantifierCount_lt
  | members merged => exact quantifierCount_coalesceMembers merged
  | single merged => exact quantifierCount_coalesceMembers merged
  | body => exact Nat.le_succ _

/-- `TakesOut parent op φs (some outer) inner ψ`: two quantifiers are taken out only if there are
two. -/
theorem TakesOut.two_le {outer inner : QuantifiedMember}
    (h : TakesOut parent op φs (some outer) inner ψ) : 2 ≤ totalCount φs := by
  cases h with
  | two _ found next =>
    have := totalCount_findQuantifier found
    have := totalCount_findQuantifier next
    omega

/-- Of two quantifiers that share no variable, neither captures one in the body of the other. -/
theorem TakesOut.apart_opposed {outer inner : QuantifiedMember} (disjoint : ∀ x ∈ xs, x ∉ ys)
    (h : TakesOut parent op [.quantified q xs φ, .quantified q.dual ys ψ] (some outer) inner χ) :
    ∀ x ∈ inner.bound, x ∉ outer.body.freeOccurrences := by
  cases h with
  | @two scope before between last after m n _ _ _ enclosed found next differ only unused nextUnused
      order built =>
    rw [findQuantifier] at found
    cases found
    rw [findQuantifier] at next
    cases next
    simp only [checkSiblings_eq_ok_iff, QuantifiedMember.toFormula, List.nil_append,
      List.append_nil, List.mem_singleton, forall_eq, mem_freeOccurrences_quantified, and_imp]
      at unused nextUnused
    intro x bound free
    -- A variable that is free in the body is bound by the quantifier over it, or it is free in the
    -- whole member, which was checked.
    rcases order_cases order with ⟨rfl, rfl⟩ | ⟨rfl, rfl⟩
    · by_cases here : x ∈ xs
      · exact disjoint x here bound
      · exact nextUnused x free here bound
    · by_cases here : x ∈ ys
      · exact disjoint x bound here
      · exact unused x free here bound

/-- `c.MovesApart`: calls for two quantifiers that share no variable move them apart. -/
theorem movesApart_opposed {c : Call} (same : c.formula = opposed op q xs ys φ ψ)
    (left : φ.quantifierCount = 0) (right : ψ.quantifierCount = 0) (disjoint : ∀ x ∈ xs, x ∉ ys) :
    c.MovesApart := by
  -- The calls made are for the two quantifiers, or have too few of them to take two out.
  have reaches : ∀ d, Relation.ReflTransGen Call.Makes c d →
      d.formula = opposed op q xs ys φ ψ ∨ d.formula.quantifierCount < 2 := by
    intro d reached
    induction reached with
    | refl => exact .inl same
    | tail _ makes ih =>
      rcases ih with same | few
      · have total : (opposed op q xs ys φ ψ).quantifierCount = 2 := by
          simp [opposed, quantifierCount, left, right]
        cases makes with
        | remainder taken =>
          right
          have less := taken.quantifierCount_lt
          rw [← quantifierCount_connective] at less
          rwa [Call.formula, ← total, ← same]
        | members merged =>
          left
          rw [Call.formula, opposed] at same
          cases same
          rw [coalesceMembers_opposed] at merged
          exact (Except.ok.inj merged).symm
        | single merged =>
          rw [Call.formula, opposed] at same
          cases same
          rw [coalesceMembers_opposed] at merged
          cases merged
        | body => cases same
      · exact .inr (Nat.lt_of_le_of_lt makes.quantifierCount_le few)
  intro parent op' φs outer inner χ reached taken
  rcases reaches _ reached with same | few
  · rw [Call.formula, opposed] at same
    cases same
    exact taken.apart_opposed disjoint
  · have two := taken.two_le
    rw [Call.formula, quantifierCount_connective] at few
    omega

/-! ## A variable that is shared -/

/-- `twoProperties p r`: a structure with two properties of truth values. -/
def twoProperties (p r : Bool → Prop) : Structure Bool where
  relation name args := if name = "A" then p (args.headD true) else r (args.headD true)
  function _ _ := true

/-- `monadic name x`: a predicate of one variable. -/
def monadic (name x : String) : Formula := .atom ⟨name, [.var x]⟩

/-- The first property, of the value of a variable. -/
theorem holds_monadic_left (p r : Bool → Prop) (v : Valuation Bool) (x : String) :
    (monadic "A" x).Holds (twoProperties p r) v ↔ p (v x) := by
  simp [monadic, Holds, Atom.Holds, Term.value, twoProperties]

/-- The second property, of the value of a variable. -/
theorem holds_monadic_right (p r : Bool → Prop) (v : Valuation Bool) (x : String) :
    (monadic "B" x).Holds (twoProperties p r) v ↔ r (v x) := by
  simp [monadic, Holds, Atom.Holds, Term.value, twoProperties]

/-- `quantified q xs φ`: a quantifier over the only free variable of a formula. -/
theorem holds_quantified_only {D : Type} {S : Structure D} {v : Valuation D} {z : String}
    (mem : z ∈ xs) (only : ∀ x ∈ φ.freeOccurrences, x = z) :
    (Formula.quantified q xs φ).Holds S v ↔
      q.Ranges (fun _ : D => True) fun d => φ.Holds S fun _ => d := by
  have same : ∀ (w : Valuation D) (d : D), w z = d → (φ.Holds S w ↔ φ.Holds S fun _ => d) := by
    intro w d value
    refine holds_congr_of_agree S ?_
    intro x hx
    rw [only x hx, value]
  rw [Holds]
  apply q.ranges_congr
  · intro w _
    exact ⟨w z, trivial, same w _ rfl⟩
  · intro d _
    -- The other variables that are bound may have this value too: they are not free.
    refine ⟨fun x => if x ∈ xs then d else v x, fun x hx => (if_neg hx).symm, ?_⟩
    exact same _ d (if_pos mem)

/-- `op.Joins [q.Ranges … p, q.dual.Ranges … r]`: a universal and an existential quantifier over two
properties cannot both be replaced by one of them. -/
theorem exists_not_joins_ranges (op : Connective) (q inner : Quantifier) :
    ∃ p r : Bool → Prop,
      ¬ (op.Joins [q.Ranges (fun _ => True) p, q.dual.Ranges (fun _ => True) r] ↔
        inner.Ranges (fun _ => True) fun d => op.Joins [p d, r d]) := by
  -- One property for each case: a connective and the quantifier that stays inside.
  obtain ⟨all, some, h⟩ : ∃ all some : Bool → Prop,
      ¬ (op.Joins [Quantifier.universal.Ranges (fun _ => True) all,
        Quantifier.existential.Ranges (fun _ => True) some] ↔
          inner.Ranges (fun _ => True) fun d => op.Joins [all d, some d]) := by
    cases inner with
    | universal =>
      cases op with
      | and => exact ⟨fun _ => True, (· = true), by simp [Quantifier.Ranges]⟩
      | or => exact ⟨fun _ => False, (· = true), by simp [Quantifier.Ranges]⟩
    | existential =>
      cases op with
      | and => exact ⟨(· = true), (· = true), by simp [Quantifier.Ranges]⟩
      | or => exact ⟨(· = true), fun _ => False, by simp [Quantifier.Ranges]⟩
  cases q with
  | universal => exact ⟨all, some, h⟩
  | existential =>
    -- The members of a connective may change places.
    have swap : ∀ p r : Prop, op.Joins [p, r] ↔ op.Joins [r, p] := fun p r =>
      op.joins_perm (.swap r p [])
    refine ⟨some, all, fun same => h ?_⟩
    exact (swap _ _).trans (same.trans (inner.ranges_iff fun d _ => swap _ _))

/-- `underBoth (some outer) inner φ`: below an inner quantifier over the only free variable, the
outer one does not count. -/
theorem holds_underBoth_only {D : Type} {S : Structure D} {v : Valuation D} {z : String}
    {outer inner : QuantifiedMember} (mem : z ∈ inner.bound)
    (only : ∀ x ∈ φ.freeOccurrences, x = z) :
    (underBoth (some outer) inner φ).simplify.Holds S v ↔
      inner.quantifier.Ranges (fun _ : D => True) fun d => φ.Holds S fun _ => d := by
  rw [holds_simplify, underBoth, QuantifiedMember.over, holds_quantify, QuantifiedMember.over,
    holds_quantified_iff fun w => holds_quantify, holds_quantified_of_unused fun x free => ?_,
    holds_quantified_only mem only]
  obtain ⟨free, unbound⟩ := mem_freeOccurrences_quantified.1 free
  rw [only x free] at unbound
  exact absurd mem unbound

/-- Nothing is hoisted out of a connective of atoms. -/
theorem hoist_atoms (a b : Atom) : hoist parent (.connective op [.atom a, .atom b]) =
    .ok (.connective op [.atom a, .atom b]) := by
  have single : ∀ q, ([.atom a, .atom b].filter (isQuantifiedBy q)).length ≤ 1 := by
    simp [isQuantifiedBy, quantifier?]
  rw [hoist_of_connective (coalesceMembers_of_single single)]
  exact rescope_eq_ok_iff.2 (.inl ⟨rfl, rfl⟩)

/-- `checkSiblings m [quantified q xs (monadic name z)]`: a quantifier over the variable of a
predicate is in nobody's way. -/
theorem checkSiblings_monadic {m : QuantifiedMember} {name z : String} (mem : z ∈ xs) :
    checkSiblings m [.quantified q xs (monadic name z)] = .ok () := by
  rw [checkSiblings_eq_ok_iff]
  intro φ hφ x free
  rw [List.mem_singleton.1 hφ] at free
  simp only [monadic, mem_freeOccurrences_quantified, freeOccurrences_atom, Atom.occurrences,
    List.flatMap_cons, List.flatMap_nil, Term.occurrences, List.append_nil,
    List.mem_singleton] at free
  exact absurd (free.1 ▸ mem) free.2

/-- `rescope (some scope) (opposed …)`: two quantifiers over one variable are moved out of a
connective, one of them inside the other. -/
theorem exists_rescope_opposed (op : Connective) (q : Quantifier) {z : String} (left : z ∈ xs)
    (right : z ∈ ys) (scope : Scope) :
    ∃ outer inner : QuantifiedMember, z ∈ inner.bound ∧
      rescope (some scope) (opposed op q xs ys (monadic "A" z) (monadic "B" z)) =
        .ok (underBoth (some outer) inner
          (.connective op [monadic "A" z, monadic "B" z])).simplify := by
  obtain ⟨outer, inner, order⟩ : ∃ outer inner : QuantifiedMember,
      (if q = scope.dominant then (⟨q, xs, monadic "A" z⟩, ⟨q.dual, ys, monadic "B" z⟩)
        else (⟨q.dual, ys, monadic "B" z⟩, ⟨q, xs, monadic "A" z⟩)) = (outer, inner) :=
    ⟨_, _, rfl⟩
  have bound : z ∈ inner.bound := by
    rcases order_cases order with ⟨-, rfl⟩ | ⟨-, rfl⟩
    · exact right
    · exact left
  have found : findQuantifier
      [.quantified q xs (monadic "A" z), .quantified q.dual ys (monadic "B" z)] =
        some ([], ⟨q, xs, monadic "A" z⟩, [.quantified q.dual ys (monadic "B" z)]) := rfl
  have next : findQuantifier [.quantified q.dual ys (monadic "B" z)] =
      some ([], ⟨q.dual, ys, monadic "B" z⟩, []) := rfl
  have differ : q ≠ q.dual := q.dual_ne.symm
  -- The variable is not free in either quantifier, so that both checks pass.
  have unused : checkSiblings ⟨q, xs, monadic "A" z⟩
      [.quantified q.dual ys (monadic "B" z)] = .ok () := checkSiblings_monadic right
  have nextUnused : checkSiblings ⟨q.dual, ys, monadic "B" z⟩
      [.quantified q xs (monadic "A" z)] = .ok () := checkSiblings_monadic left
  have built : combine op ([] ++ monadic "A" z :: [] ++ monadic "B" z :: []) =
      .ok (.connective op [monadic "A" z, monadic "B" z]) := rfl
  have taken := TakesOut.two (rfl : some scope = some scope) found next differ rfl unused nextUnused
    order built
  exact ⟨outer, inner, bound, rescope_eq_ok_iff.2
    (.inr ⟨some outer, inner, _, _, taken, hoist_atoms _ _, rfl⟩)⟩

/-- A predicate of one variable is well-formed. -/
theorem wellFormed_monadic {name : String} (named : name ≠ "") (x : String) :
    (monadic name x).WellFormed .named := .atom named

/-- `rescope (some scope) (opposed …)`: whenever two quantifiers share a variable, some bodies are
moved out of place. -/
theorem exists_not_equivalent (op : Connective) (q : Quantifier) {z : String}
    (leftBinder : IsBinder xs) (rightBinder : IsBinder ys) (left : z ∈ xs) (right : z ∈ ys)
    (scope : Scope) :
    ∃ r, (opposed op q xs ys (monadic "A" z) (monadic "B" z)).validate = .ok () ∧
      rescope (some scope) (opposed op q xs ys (monadic "A" z) (monadic "B" z)) = .ok r ∧
        ¬ (opposed op q xs ys (monadic "A" z) (monadic "B" z)).Equivalent r := by
  obtain ⟨outer, inner, bound, moved⟩ := exists_rescope_opposed op q left right scope
  refine ⟨_, ?_, moved, ?_⟩
  · rw [validate_eq_ok_iff]
    refine .connective (Nat.le_refl 2) ?_ ?_
    · simp [isConnective]
    · intro φ mem
      rcases List.mem_pair.1 mem with rfl | rfl
      · exact .quantified leftBinder (wellFormed_monadic (by decide) z)
      · exact .quantified rightBinder (wellFormed_monadic (by decide) z)
  · -- Before, each quantifier ranges over its own property; after, the inner one over both.
    intro same
    obtain ⟨p, r, differ⟩ := exists_not_joins_ranges op q inner.quantifier
    have only : ∀ name, ∀ x ∈ (monadic name z).freeOccurrences, x = z := by
      simp [monadic, Atom.occurrences, Term.occurrences]
    have onlyBoth : ∀ x ∈ (Formula.connective op [monadic "A" z, monadic "B" z]).freeOccurrences,
        x = z := by
      simp [monadic, Atom.occurrences, Term.occurrences]
    have before : (opposed op q xs ys (monadic "A" z) (monadic "B" z)).Holds (twoProperties p r)
        (fun _ => true) ↔
          op.Joins [q.Ranges (fun _ => True) p, q.dual.Ranges (fun _ => True) r] := by
      rw [opposed, Holds]
      refine op.joins_pair_congr ?_ ?_
      · exact (holds_quantified_only left (only "A")).trans
          (q.ranges_iff fun d _ => holds_monadic_left p r _ z)
      · exact (holds_quantified_only right (only "B")).trans
          (q.dual.ranges_iff fun d _ => holds_monadic_right p r _ z)
    have after : (underBoth (some outer) inner
        (.connective op [monadic "A" z, monadic "B" z])).simplify.Holds
          (twoProperties p r) (fun _ => true) ↔
            inner.quantifier.Ranges (fun _ => True) fun d => op.Joins [p d, r d] := by
      refine (holds_underBoth_only bound onlyBoth).trans (inner.quantifier.ranges_iff ?_)
      intro d _
      rw [Holds]
      exact op.joins_pair_congr (holds_monadic_left p r _ z) (holds_monadic_right p r _ z)
    exact differ (before.symm.trans ((same Bool (twoProperties p r) _).trans after))

/-! ## The condition -/

/-- **Moving quantifiers out keeps the meaning** of every well-formed formula, by either operation
and under any enclosing scope or none, if no inner quantifier captures a variable of an outer one
that is moved with it (`Call.MovesApart`). For two quantifiers of different kinds under a scope this
cannot be weakened: over all bodies without quantifiers, those and only those may be moved out of a
connective that share no variable. -/
theorem equivalent_of_movesApart (call : Option Scope → Formula → Call)
    (mem : call ∈ [Call.rescope, Call.hoist]) (parent : Option Scope) :
    (∀ φ r : Formula, φ.validate = .ok () → (call parent φ).MovesApart →
      (call parent φ).run = .ok r → φ.Equivalent r) ∧
    ∀ (op : Connective) (q : Quantifier) (xs ys : List String), parent ≠ none → IsBinder xs →
      IsBinder ys →
        ((∀ φ ψ r : Formula, φ.quantifierCount = 0 → ψ.quantifierCount = 0 →
          (opposed op q xs ys φ ψ).validate = .ok () →
            (call parent (opposed op q xs ys φ ψ)).run = .ok r →
              (opposed op q xs ys φ ψ).Equivalent r) ↔ ∀ x ∈ xs, x ∉ ys) := by
  have same : ∀ φ : Formula, (call parent φ).formula = φ := by
    intro φ
    rcases List.mem_pair.1 mem with rfl | rfl <;> rfl
  have sound : ∀ φ r : Formula, φ.validate = .ok () → (call parent φ).MovesApart →
      (call parent φ).run = .ok r → φ.Equivalent r := by
    intro φ r valid apart run
    have wellFormed : (call parent φ).formula.WellFormed .named :=
      (same φ).symm ▸ validate_eq_ok_iff.1 valid
    have rewrites := (Call.sound wellFormed apart run).rewrites
    rw [same φ] at rewrites
    exact rewrites.equivalent
  refine ⟨sound, fun op q xs ys enclosed leftBinder rightBinder => ⟨?_, ?_⟩⟩
  · -- A shared variable would be captured under some bodies.
    intro kept z left right
    obtain ⟨scope, rfl⟩ := Option.ne_none_iff_exists'.1 enclosed
    obtain ⟨r, valid, moved, differ⟩ :=
      exists_not_equivalent op q leftBinder rightBinder left right scope
    refine differ (kept _ _ r rfl rfl valid ?_)
    rcases List.mem_pair.1 mem with rfl | rfl
    · exact moved
    · exact (hoist_of_connective coalesceMembers_opposed).trans moved
  · intro disjoint φ ψ r left right valid run
    exact sound _ r valid (movesApart_opposed (same _) left right disjoint) run

/-- `opposed` over different variables: two quantifiers moved out of a conjunction and out of a
disjunction. -/
theorem different_variables_moved :
    (Call.rescope (some .conjunction)
      (opposed .and .universal ["x"] ["y"] (monadic "A" "x") (monadic "B" "y"))).MovesApart ∧
    (opposed .and .universal ["x"] ["y"] (monadic "A" "x") (monadic "B" "y")).Equivalent
      (.quantified .universal ["x"] (.quantified .existential ["y"]
        (.connective .and [monadic "A" "x", monadic "B" "y"]))) ∧
    (opposed .or .universal ["x"] ["y"] (monadic "A" "x") (monadic "B" "y")).Equivalent
      (.quantified .existential ["y"] (.quantified .universal ["x"]
        (.connective .or [monadic "A" "x", monadic "B" "y"]))) := by
  have disjoint : ∀ x ∈ ["x"], x ∉ ["y"] := by decide
  have apart : (Call.rescope (some .conjunction)
      (opposed .and .universal ["x"] ["y"] (monadic "A" "x") (monadic "B" "y"))).MovesApart :=
    movesApart_opposed rfl rfl rfl disjoint
  refine ⟨apart, ?_, ?_⟩
  · have sound := (equivalent_of_movesApart Call.rescope (by simp) (some .conjunction)).1
    exact sound _ _ (by cbv) apart (by cbv)
  · have exactly := (equivalent_of_movesApart Call.hoist (by simp) (some .disjunction)).2
      .or .universal ["x"] ["y"] (by simp) ⟨by decide, by decide, by decide⟩
        ⟨by decide, by decide, by decide⟩
    exact exactly.2 disjoint _ _ _ rfl rfl (by cbv) (by cbv)

/-- `opposed` over one variable, moved out of a conjunction: the existential quantifier now binds
the variable of the universal one. -/
theorem shared_variable_captured :
    (opposed .and .universal ["x"] ["x"] (monadic "A" "x") (monadic "B" "x")).validate = .ok () ∧
    rescope (some .conjunction)
        (opposed .and .universal ["x"] ["x"] (monadic "A" "x") (monadic "B" "x")) =
      .ok (.quantified .universal ["x"] (.quantified .existential ["x"]
        (.connective .and [monadic "A" "x", monadic "B" "x"]))) ∧
    ¬ (opposed .and .universal ["x"] ["x"] (monadic "A" "x") (monadic "B" "x")).Equivalent
      (.quantified .universal ["x"] (.quantified .existential ["x"]
        (.connective .and [monadic "A" "x", monadic "B" "x"]))) := by
  have binder : IsBinder ["x"] := ⟨by decide, by decide, by decide⟩
  have mem : "x" ∈ ["x"] := List.mem_cons_self
  have moved : rescope (some .conjunction)
        (opposed .and .universal ["x"] ["x"] (monadic "A" "x") (monadic "B" "x")) =
      .ok (.quantified .universal ["x"] (.quantified .existential ["x"]
        (.connective .and [monadic "A" "x", monadic "B" "x"]))) := by cbv
  obtain ⟨r, valid, same, differ⟩ :=
    exists_not_equivalent .and .universal binder binder mem mem .conjunction
  rw [moved] at same
  cases same
  exact ⟨valid, moved, differ⟩

end ClausalForm.Formula
