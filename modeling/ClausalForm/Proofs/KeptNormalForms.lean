import ClausalForm.Proofs.FunctionElimination
import ClausalForm.Proofs.Prenexing
import ClausalForm.Proofs.ValidNormalForms

/-! # Normal forms are kept

Each pass of the normalization but the standardization of variables recognizes what the passes
return, and leaves it as it is.

* **`Formula.eliminateFunctions_self`**: without functions nothing is eliminated.
* **`Formula.pushNegations_self`**: a negation at an atom is not pushed.
* **`Formula.simplify_self`**, **`Formula.prenexWith_self`**: alternating quantifiers in front are
  neither merged nor moved.
* **`Formula.conjuncts_ofConjuncts`**: the conjuncts of a conjunctive normal form.
* **`Formula.IsNormal.prenexForm_self`**: a normal form is its own prenex conjunctive form. -/

namespace ClausalForm

/-! ## Computations that return what they are given -/

/-- `inOrder (as.map f) = .ok as`: computations in order return the elements of a list, if each of
them returns its own. -/
theorem inOrder_map_self {ε α : Type} {f : α → Except ε α} {as : List α}
    (each : ∀ a ∈ as, f a = .ok a) : inOrder (as.map f) = .ok as := by
  rw [inOrder_map_eq_ok_map each, List.map_id']

/-- The same for computations that thread a state. -/
theorem Threaded.ensures_inOrder_self {σ ε α : Type} {f : α → Threaded σ ε α} {failed : ε → Prop}
    {as : List α} (each : ∀ a ∈ as, ∀ s, (f a).Ensures s (fun b _ => b = a) failed) (s : σ) :
    (inOrder (as.map f)).Ensures s (fun bs _ => bs = as) failed := by
  induction as generalizing s with
  | nil => exact rfl
  | cons a as ih =>
    rw [List.forall_mem_cons] at each
    rw [List.map_cons, ensures_inOrder_cons]
    refine (each.1 s).mono (fun b t first => ?_) fun _ => id
    refine (ih each.2 t).mono (fun bs u rest => ?_) fun _ => id
    rw [first, rest]

namespace Formula

variable {leaves : Leaves} {parent : Option Scope} {φ r : Formula} {φs : List Formula}
  {css : Conjuncts} {settle : Option Scope → Formula → Except NormalizationError Formula}

/-! ## Functions and negations -/

/-- `φ.eliminateFunctions`: in a well-formed formula without functions nothing is eliminated. -/
theorem ensures_eliminateFunctions_self (wellFormed : φ.WellFormed leaves)
    (functionFree : ∀ a, leaves.atom a → a.hasFunctions = false) (s : FreshSupply) :
    φ.eliminateFunctions.Ensures s (fun ψ _ => ψ = φ) fun _ => False := by
  -- A literal is taken as a whole, its negation included.
  have literal : ∀ a positive, leaves.atom a → ∀ s,
      (eliminateFunctions (Literal.toFormula ⟨a, positive⟩)).Ensures s
        (fun ψ _ => ψ = Literal.toFormula ⟨a, positive⟩) fun _ => False := by
    intro a positive allowed s
    rw [eliminateFunctions_toFormula, functionFree a allowed]
    exact Threaded.ensures_pure.2 rfl
  induction wellFormed generalizing s with
  | @atom a allowed => exact literal a true allowed s
  | @not φ _ body ih =>
    cases body with
    | @atom a allowed => exact literal a false allowed s
    | not | connective | quantified =>
      rw [eliminateFunctions_not rfl, Threaded.ensures_map]
      exact (ih s).mono (fun ψ t same => congrArg Formula.not same) fun _ => id
  | @connective op φs two flat members ih =>
    rw [eliminateFunctions, Threaded.ensures_bind]
    refine (Threaded.ensures_inOrder_self ih s).mono (fun ψs t same => ?_) fun _ => id
    rw [same, Threaded.ensures_ofRecorded, Recorded.result_ofExcept,
      (WellFormed.connective two flat members).combine_eq]
  | @quantified q xs φ _ _ ih =>
    rw [eliminateFunctions, Threaded.ensures_map]
    exact (ih s).mono (fun ψ t same => congrArg (Formula.quantified q xs) same) fun _ => id

/-- A well-formed formula without functions is what their elimination returns. -/
theorem eliminateFunctions_self (wellFormed : φ.WellFormed leaves)
    (functionFree : ∀ a, leaves.atom a → a.hasFunctions = false) (s : FreshSupply) :
    (φ.eliminateFunctions s).1.result = .ok φ := by
  have spec := ensures_eliminateFunctions_self wellFormed functionFree s
  cases result : (φ.eliminateFunctions s).1.result with
  | ok ψ => rw [spec.of_ok result]
  | error e => exact (spec.of_error result).elim

/-- `φ.pushNegations = .ok φ`: in a well-formed formula whose negations stand at atoms none is
pushed. -/
theorem pushNegations_self (wellFormed : φ.WellFormed leaves.literals) :
    φ.pushNegations = .ok φ := by
  rw [pushNegations_eq_pushed]
  induction wellFormed with
  | atom => rw [pushed]; rfl
  | not allowed body =>
    cases body with
    | atom => rw [pushed, pushed]; rfl
    | _ => exact absurd allowed (by simp [isAtom, Leaves.literals])
  | @connective op φs two flat members ih =>
    rw [pushed, inOrder_map_self ih]
    exact (WellFormed.connective two flat members).combine_eq
  | quantified binder _ ih => rw [pushed, ih]; rfl

/-! ## Quantifiers -/

/-- `hoist parent φ = .ok φ`: out of a formula without quantifiers none is hoisted. -/
theorem hoist_of_quantifierCount (none : φ.quantifierCount = 0) : hoist parent φ = .ok φ := by
  cases φ with
  | atom a => exact hoist_atom a
  | not φ => exact hoist_not φ
  | quantified => simp [quantifierCount] at none
  | connective op φs =>
    rw [quantifierCount_connective, totalCount_eq_zero_iff] at none
    have plain : ∀ φ ∈ φs, φ.isQuantified = false := fun φ mem =>
      isQuantified_of_quantifierCount (none φ mem)
    have single : ∀ q, (φs.filter (isQuantifiedBy q)).length ≤ 1 := by
      intro q
      rw [List.filter_eq_nil_iff.2, List.length_nil]
      · exact Nat.zero_le 1
      · intro φ mem kind
        obtain ⟨xs, ψ, rfl⟩ := isQuantifiedBy_iff.1 kind
        cases plain _ mem
    rw [hoist_of_connective (coalesceMembers_of_single single),
      rescope_of_none (findQuantifier_eq_none_iff.2 plain)]

/-- `φ.simplify = φ`: alternating quantifiers in front of a well-formed formula are not merged. -/
theorem simplify_self (wellFormed : φ.WellFormed leaves) (prenex : φ.IsPrenex)
    (alternating : φ.blocks.IsChain fun b c => b.quantifier ≠ c.quantifier) : φ.simplify = φ := by
  induction wellFormed with
  | @quantified q xs φ binder _ ih =>
    rw [isPrenex_quantified] at prenex
    rw [blocks] at alternating
    rw [simplify, ih prenex alternating.tail, absorb_of_ne binder.nodup]
    -- The next quantifier is of the other kind, if there is one.
    cases φ with
    | quantified r ys ψ =>
      rw [blocks, List.isChain_cons_cons] at alternating
      exact fun same => alternating.1 (Option.some.inj same).symm
    | _ => simp [quantifier?]
  | _ => exact simplify_of_quantifierCount_eq_zero (prenex.quantifierCount rfl)

/-- `φ.prenexWith settle parent = .ok φ`: in a well-formed formula without quantifiers whose
negations stand at atoms there is nothing to move to the front. -/
theorem prenexWith_of_quantifierCount (wellFormed : φ.WellFormed leaves.literals)
    (none : φ.quantifierCount = 0) : φ.prenexWith settle parent = .ok φ := by
  induction wellFormed generalizing parent with
  | atom => rw [prenexWith]
  | not allowed _ => rw [prenexWith, if_pos (allowed.resolve_right id)]
  | quantified => simp [quantifierCount] at none
  | @connective op φs two flat members ih =>
    have each : ∀ φ ∈ φs, φ.prenexWith settle (some op.scope) = .ok φ := by
      rw [quantifierCount_connective, totalCount_eq_zero_iff] at none
      exact fun φ mem => ih φ mem (none φ mem)
    have same := simplify_of_quantifierCount_eq_zero none
    rw [prenexWith]
    refine bind_eq_ok_iff.2 ⟨φs, inOrder_map_self each, bind_eq_ok_iff.2
      ⟨_, (WellFormed.connective two flat members).combine_eq, bind_eq_ok_iff.2
        ⟨_, hoist_of_quantifierCount none, ?_⟩⟩⟩
    rw [same]
    rfl

/-- `φ.prenexWith settle parent = .ok φ`: alternating quantifiers in front of such a formula are not
moved. -/
theorem prenexWith_self (wellFormed : φ.WellFormed leaves.literals) (prenex : φ.IsPrenex)
    (alternating : φ.blocks.IsChain fun b c => b.quantifier ≠ c.quantifier) :
    φ.prenexWith settle parent = .ok φ := by
  induction wellFormed generalizing parent with
  | @quantified q xs φ binder body ih =>
    have simple := simplify_self (.quantified binder body) prenex alternating
    rw [isPrenex_quantified] at prenex
    rw [blocks] at alternating
    rw [prenexWith, ih prenex alternating.tail]
    exact congrArg Except.ok simple
  | atom allowed => exact prenexWith_of_quantifierCount (.atom allowed) rfl
  | not allowed body =>
    exact prenexWith_of_quantifierCount (.not allowed body) (prenex.quantifierCount rfl)
  | connective two flat members =>
    exact prenexWith_of_quantifierCount (.connective two flat members) (prenex.quantifierCount rfl)

/-! ## Clauses -/

/-- `φ.conjunctsWith settle = .ok [[φ]]`: a literal is its own conjunct. -/
theorem conjunctsWith_of_isLiteral {settle : Formula → Except NormalizationError Conjuncts}
    (literal : φ.isLiteral = true) : φ.conjunctsWith settle = .ok [[φ]] := by
  cases φ with
  | atom a => rw [conjunctsWith]
  | not φ =>
    rw [isLiteral] at literal
    rw [conjunctsWith, if_pos literal]
  | _ => cases literal

/-- `distributeDisjuncts (φs.map .simple) = .ok [φs]`: simple disjuncts are not distributed over
each other. -/
theorem distributeDisjuncts_simple (φs : List Formula) :
    distributeDisjuncts (φs.map .simple) = .ok [φs] := by
  have none : takeConjunction (φs.map .simple) = none := by
    induction φs with
    | nil => rfl
    | cons φ φs ih => rw [List.map_cons, takeConjunction, ih, Option.map_none]
  rw [distributeDisjuncts]
  split
  · rw [flatMap_parts_simple]
  · next found => rw [none] at found; cases found
  · next found => rw [none] at found; cases found

/-- The members of a connective that are no quantifiers are asked for their conjuncts. -/
theorem inOrder_conjunctsWith {settle : Formula → Except NormalizationError Conjuncts}
    {parts : List Conjuncts} (plain : ∀ φ ∈ φs, φ.isQuantified = false)
    (all : List.Forall₂ (fun φ cs => φ.conjunctsWith settle = .ok cs) φs parts) :
    (inOrder <| φs.map fun φ => if φ.isQuantified then .error (.malformed (.quantifierInMatrix φ))
      else φ.conjunctsWith settle) = .ok parts := by
  rw [inOrder_map_eq_ok]
  refine ((List.forall₂_and_left _ _).2 ⟨plain, all⟩).imp fun φ cs h => ?_
  rw [h.1]
  exact h.2

/-- Joined members are no quantifier if none of them is one. -/
theorem isQuantified_joined {op : Connective} (plain : ∀ φ ∈ φs, φ.isQuantified = false) :
    (joined op φs).isQuantified = false := by
  unfold joined
  split
  · next φ => exact plain φ List.mem_cons_self
  · rfl

/-- `(joined .or φs).conjunctsWith settle = .ok [φs]`: the conjunct of a clause is the clause. -/
theorem conjunctsWith_joined_or {settle : Formula → Except NormalizationError Conjuncts}
    (some : φs ≠ []) (literal : ∀ φ ∈ φs, φ.isLiteral = true) :
    (joined .or φs).conjunctsWith settle = .ok [φs] := by
  unfold joined
  split
  · next φ => exact conjunctsWith_of_isLiteral (literal φ List.mem_cons_self)
  · have members : List.Forall₂ (fun φ cs => φ.conjunctsWith settle = .ok cs) φs
        (φs.map fun φ => [[φ]]) := by
      rw [List.forall₂_map_right_iff, List.forall₂_same]
      exact fun φ mem => conjunctsWith_of_isLiteral (literal φ mem)
    have simple : (φs.map fun φ => [[φ]]).flatMap disjunctsOf = φs.map .simple := by
      rw [List.flatMap_map, List.map_eq_flatMap]
      rfl
    rw [conjunctsWith]
    refine bind_eq_ok_iff.2 ⟨_, inOrder_conjunctsWith
      (fun φ mem => isQuantified_of_isLiteral (literal φ mem)) members,
      bind_eq_ok_iff.2 ⟨φs.map .simple, ?_, distributeDisjuncts_simple φs⟩⟩
    rw [simple]
    exact nonemptyMembers_of_ne_nil .or (by simpa using some)

/-- `(ofConjuncts css).conjuncts = .ok css`: the conjuncts of the form of proper conjuncts are these
conjuncts. -/
theorem conjuncts_ofConjuncts (proper : Conjuncts.IsProper leaves css) :
    (ofConjuncts css).conjuncts = .ok css := by
  have clause : ∀ c ∈ css, ∀ settle, (joined .or c).conjunctsWith settle = .ok [c] :=
    fun c mem settle => conjunctsWith_joined_or (proper.clause c mem)
      fun φ hφ => (proper.literal c mem φ hφ).1
  rw [conjuncts, ofConjuncts]
  generalize form : css.map (joined .or) = clauses
  unfold joined
  split
  -- A conjunction of one clause is the clause itself.
  · next φ =>
    obtain ⟨c, rfl, rfl⟩ := List.map_eq_singleton_iff.1 form
    exact clause c List.mem_cons_self _
  · subst form
    have plain : ∀ φ ∈ css.map (joined .or), φ.isQuantified = false :=
      List.forall_mem_map.2 fun c mem => isQuantified_joined fun φ hφ =>
        isQuantified_of_isLiteral (proper.literal c mem φ hφ).1
    rw [conjunctsWith]
    refine bind_eq_ok_iff.2 ⟨css.map fun c => [c], inOrder_conjunctsWith plain ?_, ?_⟩
    · rw [List.forall₂_map_left_iff, List.forall₂_map_right_iff, List.forall₂_same]
      exact fun c mem => clause c mem _
    · rw [← List.flatMap_def, List.flatMap_singleton']
      exact nonemptyMembers_of_ne_nil .and proper.some

/-! ## Normal forms -/

/-- `r.pushNegations = .ok r`: a normal form with its negations at atoms is its own negation normal
form. -/
theorem IsNormal.pushNegations_self (h : IsNormal leaves.literals r) : r.pushNegations = .ok r :=
  Formula.pushNegations_self h.wellFormed

/-- `r.prenexForm = .ok r`: a normal form with its negations at atoms is its own prenex conjunctive
normal form. -/
theorem IsNormal.prenexForm_self (h : IsNormal leaves.literals r) : r.prenexForm = .ok r := by
  have front : r.prenex = .ok r :=
    prenexWith_self h.wellFormed h.quantifierCount_matrix h.alternating
  obtain ⟨css, form, proper⟩ := h.proper
  have matrix : r.matrix.conjunctiveForm = .ok r.matrix := by
    rw [form]
    exact map_eq_ok_iff.2 ⟨css, conjuncts_ofConjuncts proper, rfl⟩
  refine bind_eq_ok_iff.2 ⟨r, front, bind_eq_ok_iff.2 ⟨r.matrix, matrix, ?_⟩⟩
  rw [quantifyBlocks_eq h.binders, underBlocks_blocks_matrix]
  rfl

end Formula

end ClausalForm
