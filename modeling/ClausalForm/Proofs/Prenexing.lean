import ClausalForm.Prenex
import ClausalForm.Proofs.ConjunctiveNormal
import ClausalForm.Proofs.Hoisting

/-! # Prenex conjunctive normal form

Well-formed formulas with separated variables have a prenex conjunctive normal form.

* **`Formula.exists_prenexWith`**, **`Formula.exists_prenex`**: their quantifiers can be moved to
  the front.
* **`Formula.IsNormal`**: alternating quantifiers over proper conjuncts.
* **`Formula.exists_prenexForm`**: the form may replace the formula. -/

namespace ClausalForm.Formula

variable {leaves : Leaves} {φ ψ r : Formula} {bs : List Block}

/-! ## Quantifiers moved to the front -/

/-- `IsPrenexOf leaves φ r`: a formula with alternating quantifiers in front that may replace
another one. -/
structure IsPrenexOf (leaves : Leaves) (φ r : Formula) : Prop where
  rewrites : Rewrites φ r
  wellFormed : r.WellFormed leaves
  prenex : r.IsPrenex
  alternating : r.blocks.IsChain fun b c => b.quantifier ≠ c.quantifier

/-- `IsPrenexOf leaves φ φ`: a formula without quantifiers needs nothing in front. -/
theorem IsPrenexOf.refl (none : φ.quantifierCount = 0) (bare : φ.blocks = [])
    (wellFormed : φ.WellFormed leaves) : IsPrenexOf leaves φ φ := by
  refine ⟨.refl _, wellFormed, isPrenex_of_quantifierCount none, ?_⟩
  rw [bare]
  exact .nil

/-- `r.simplify`: what is sound and has its quantifiers in front has them alternating after
simplification. -/
theorem IsPrenexOf.simplify (sound : Sound leaves φ r) (prenex : r.IsPrenex) :
    IsPrenexOf leaves φ r.simplify :=
  ⟨sound.rewrites.trans (rewrites_simplify r), sound.wellFormed.simplify, prenex.simplify,
    isChain_blocks_simplify r⟩

/-- `hoist (some scope) χ = .ok r`: formulas with separated variables and their quantifiers in front
can be joined by a connective, and its quantifiers moved to the front. -/
theorem exists_gathered {op : Connective} {ψs : List Formula} (two : 2 ≤ ψs.length)
    (wellFormed : ∀ ψ ∈ ψs, ψ.WellFormed leaves) (prenex : ∀ ψ ∈ ψs, ψ.IsPrenex)
    (separated : (Formula.connective op ψs).Separated) (scope : Scope) :
    ∃ χ r, combine op ψs = .ok χ ∧ hoist (some scope) χ = .ok r ∧
      IsPrenexOf leaves (.connective op ψs) r.simplify := by
  have built := combine_of_wellFormed op two wellFormed
  have combined := Rewrites.of_combine built
  have joined := WellFormed.of_combine wellFormed built
  have apart := combined.separated separated
  have gathered : ∀ χ ∈ (Formula.connective op (spliced op ψs)).membersOf op, χ.IsPrenex := by
    intro χ mem
    rw [membersOf, if_pos rfl] at mem
    obtain ⟨ψ, hψ, hχ⟩ := List.mem_flatMap.1 mem
    exact (prenex ψ hψ).of_mem_membersOf hχ
  obtain ⟨r, hoisted, front⟩ := exists_hoist joined apart gathered scope
  -- On separated variables no quantifier captures another one's, so that the run is sound.
  have sound := sound_of_hoist joined (Call.movesApart_of_separated joined apart) hoisted
  exact ⟨_, r, built, hoisted,
    .simplify ⟨combined.trans sound.rewrites, sound.wellFormed⟩ front⟩

/-- `φ.prenexWith settle parent = .ok r`: the quantifiers of a well-formed formula with separated
variables can be moved to the front, if this is so for the negations of compound formulas, which
`settle` sees to. -/
theorem exists_prenexWith (settle : Option Scope → Formula → Except NormalizationError Formula)
    (settles : leaves.compound → ∀ φ : Formula, (Formula.not φ).WellFormed leaves →
      (Formula.not φ).Separated → ∀ parent, ∃ r, settle parent (.not φ) = .ok r ∧
        IsPrenexOf leaves.literals (.not φ) r)
    (wellFormed : φ.WellFormed leaves) (separated : φ.Separated) (parent : Option Scope) :
    ∃ r, φ.prenexWith settle parent = .ok r ∧ IsPrenexOf leaves.literals φ r := by
  induction wellFormed generalizing parent with
  | @atom a allowed => exact ⟨_, by rw [prenexWith], .refl rfl rfl (.atom allowed)⟩
  | @not φ allowed body _ =>
    rw [prenexWith]
    split
    · next atomic =>
      cases body with
      | atom named => exact ⟨_, rfl, .refl rfl rfl (.not (.inl rfl) (.atom named))⟩
      | _ => cases atomic
    · next compound =>
      exact settles (allowed.resolve_left compound) φ (.not allowed body) separated parent
  | @quantified q xs φ binder _ ih =>
    obtain ⟨ψ, found, spec⟩ := ih separated.body (some q.scope)
    refine ⟨_, by rw [prenexWith]; exact bind_eq_ok_iff.2 ⟨ψ, found, rfl⟩, ?_⟩
    exact .simplify ⟨spec.rewrites.quantified, .quantified binder spec.wellFormed⟩
      (isPrenex_quantified.2 spec.prenex)
  | @connective op φs two flat members ih =>
    obtain ⟨ψs, found, all⟩ := exists_inOrder_map fun φ mem =>
      ih φ mem (separated.member mem) (some op.scope)
    -- The members are rewritten first, and then their quantifiers are moved to the front.
    have replaced : Rewrites (.connective op φs) (.connective op ψs) :=
      .connective (all.imp fun _ _ spec => spec.rewrites)
    obtain ⟨χ, r, built, hoisted, spec⟩ := exists_gathered (all.length_eq ▸ two)
      (forall_right_of_forall₂ all fun _ _ spec => spec.wellFormed)
      (forall_right_of_forall₂ all fun _ _ spec => spec.prenex)
      (replaced.separated separated) (parent.getD op.scope)
    refine ⟨r.simplify, ?_, replaced.trans spec.rewrites, spec.wellFormed, spec.prenex,
      spec.alternating⟩
    rw [prenexWith]
    exact bind_eq_ok_iff.2 ⟨ψs, found, bind_eq_ok_iff.2 ⟨χ, built,
      bind_eq_ok_iff.2 ⟨r, hoisted, rfl⟩⟩⟩

/-- `φ.prenex = .ok r`: the quantifiers of a well-formed formula with separated variables can be
moved to the front. -/
theorem exists_prenex (wellFormed : φ.WellFormed leaves) (separated : φ.Separated) :
    ∃ r, φ.prenex = .ok r ∧ IsPrenexOf leaves.literals φ r := by
  refine exists_prenexWith _ ?_ wellFormed separated none
  intro _ φ wellFormed separated parent
  obtain ⟨ψ, pushing, rewrites, literal⟩ := exists_pushNegations wellFormed.populated
  obtain ⟨r, found, spec⟩ := exists_prenexWith (fun _ χ => .ok χ)
    (fun compound => False.elim compound) literal (rewrites.separated separated) parent
  exact ⟨r, bind_eq_ok_iff.2 ⟨ψ, pushing, found⟩, rewrites.trans spec.rewrites, spec.wellFormed,
    spec.prenex, spec.alternating⟩

/-! ## Quantifiers in front -/

/-- `(underBlocks bs φ).freeOccurrences`: what is free below quantifiers is free, except for what
they bind. -/
theorem mem_freeOccurrences_underBlocks {x : String} (bs : List Block) (φ : Formula) :
    x ∈ (underBlocks bs φ).freeOccurrences ↔
      x ∈ φ.freeOccurrences ∧ x ∉ bs.flatMap Block.bound := by
  induction bs with
  | nil => simp [underBlocks]
  | cons b bs ih =>
    show x ∈ (Formula.quantified b.quantifier b.bound (underBlocks bs φ)).freeOccurrences ↔ _
    rw [mem_freeOccurrences_quantified, ih, List.flatMap_cons, List.mem_append, not_or, and_assoc,
      and_comm (a := x ∉ bs.flatMap Block.bound)]

/-- `(underBlocks bs φ).boundVariables`: quantifiers bind their variables in front of those of the
formula. -/
theorem boundVariables_underBlocks (bs : List Block) (φ : Formula) :
    (underBlocks bs φ).boundVariables = bs.flatMap Block.bound ++ φ.boundVariables := by
  induction bs with
  | nil => rfl
  | cons b bs ih =>
    show (Formula.quantified b.quantifier b.bound (underBlocks bs φ)).boundVariables = _
    rw [boundVariables_quantified, ih, List.flatMap_cons, List.append_assoc]

/-- Of quantifiers that bind nothing twice exactly one binds a given variable. -/
theorem countP_blocks {x : String} (nodup : (bs.flatMap Block.bound).Nodup)
    (mem : x ∈ bs.flatMap Block.bound) : (bs.countP fun b => x ∈ b.bound) = 1 := by
  induction bs with
  | nil => cases mem
  | cons b bs ih =>
    rw [List.flatMap_cons] at nodup mem
    obtain ⟨-, rest, apart⟩ := List.nodup_append.1 nodup
    by_cases here : x ∈ b.bound
    · -- No later quantifier binds the variable again.
      have none : (bs.countP fun b => x ∈ b.bound) = 0 := by
        rw [List.countP_eq_zero]
        intro c hc again
        exact apart x here x (List.mem_flatMap.2 ⟨c, hc, of_decide_eq_true again⟩) rfl
      rw [List.countP_cons, none, if_pos (decide_eq_true here)]
    · rw [List.countP_cons, if_neg (by simpa using here)]
      exact ih rest ((List.mem_append.1 mem).resolve_left here)

/-- `φ.occurrences = φ.freeOccurrences`: without quantifiers every occurrence is free. -/
theorem occurrences_of_quantifierCount (none : φ.quantifierCount = 0) :
    φ.occurrences = φ.freeOccurrences := by
  induction φ using induction with
  | atom a => rw [occurrences, freeOccurrences_atom]
  | not φ ih => rw [occurrences, freeOccurrences_not, ih none]
  | connective op φs ih =>
    rw [quantifierCount_connective, totalCount_eq_zero_iff] at none
    rw [occurrences, freeOccurrences_connective]
    exact List.flatMap_congr fun φ mem => ih φ mem (none φ mem)
  | quantified => simp [quantifierCount] at none

/-! ## The form -/

/-- `quantifyBlocks bs φ = underBlocks bs φ`: quantifiers over variables that may be bound are built
as they are. -/
theorem quantifyBlocks_eq (binders : ∀ b ∈ bs, IsBinder b.bound) (φ : Formula) :
    quantifyBlocks bs φ = underBlocks bs φ := by
  induction bs with
  | nil => rfl
  | cons b bs ih =>
    rw [List.forall_mem_cons] at binders
    show quantify b.quantifier b.bound (quantifyBlocks bs φ) =
      .quantified b.quantifier b.bound (underBlocks bs φ)
    rw [ih binders.2, quantify_of_isBinder binders.1]

/-- What quantifiers enclose may be replaced. -/
theorem Rewrites.underBlocks (h : Rewrites φ ψ) (bs : List Block) :
    Rewrites (Formula.underBlocks bs φ) (Formula.underBlocks bs ψ) := by
  induction bs with
  | nil => exact h
  | cons b bs ih => exact ih.quantified

/-- `(underBlocks bs φ).blocks = bs`: the quantifiers in front of a formula that starts with no
quantifier. -/
theorem blocks_underBlocks (plain : φ.isQuantified = false) (bs : List Block) :
    (underBlocks bs φ).blocks = bs ∧ (underBlocks bs φ).matrix = φ := by
  induction bs with
  | nil =>
    cases φ with
    | quantified => cases plain
    | _ => exact ⟨rfl, rfl⟩
  | cons b bs ih =>
    show (Formula.quantified b.quantifier b.bound (underBlocks bs φ)).blocks = b :: bs ∧
      (Formula.quantified b.quantifier b.bound (underBlocks bs φ)).matrix = φ
    rw [blocks, matrix, ih.1, ih.2]
    exact ⟨rfl, rfl⟩

/-- A well-formed formula has well-formed quantifiers in front of a well-formed matrix. -/
theorem WellFormed.blocks_matrix (h : φ.WellFormed leaves) :
    (∀ b ∈ φ.blocks, IsBinder b.bound) ∧ φ.matrix.WellFormed leaves := by
  induction h with
  | atom allowed => exact ⟨List.forall_mem_nil _, .atom allowed⟩
  | not allowed body _ => exact ⟨List.forall_mem_nil _, .not allowed body⟩
  | connective two flat members _ => exact ⟨List.forall_mem_nil _, .connective two flat members⟩
  | quantified binder _ ih =>
    rw [blocks, matrix, List.forall_mem_cons]
    exact ⟨⟨binder, ih.1⟩, ih.2⟩

/-- `IsNormal leaves r`: alternating quantifiers over a conjunction of disjunctions of literals. -/
structure IsNormal (leaves : Leaves) (r : Formula) : Prop where
  binders : ∀ b ∈ r.blocks, IsBinder b.bound
  alternating : r.blocks.IsChain fun b c => b.quantifier ≠ c.quantifier
  proper : ∃ css, r.matrix = ofConjuncts css ∧ Conjuncts.IsProper leaves css

/-- **Prenex conjunctive normal forms.** `φ.prenexForm = .ok r`: well-formed formulas with separated
variables have such a form, which may replace them. -/
theorem exists_prenexForm (wellFormed : φ.WellFormed leaves) (separated : φ.Separated) :
    ∃ r, φ.prenexForm = .ok r ∧ Rewrites φ r ∧ IsNormal leaves.literals r := by
  obtain ⟨ψ, found, spec⟩ := exists_prenex wellFormed separated
  obtain ⟨binders, matrix⟩ := spec.wellFormed.blocks_matrix
  obtain ⟨css, form, proper, rewrites⟩ := exists_conjunctiveForm matrix.populated spec.prenex
  have plain := isQuantified_of_quantifierCount (quantifierCount_ofConjuncts proper)
  obtain ⟨blocks, inside⟩ := blocks_underBlocks plain ψ.blocks
  -- The quantifiers stay, and the matrix below them takes its conjunctive form.
  have replaced := rewrites.underBlocks ψ.blocks
  rw [underBlocks_blocks_matrix] at replaced
  refine ⟨underBlocks ψ.blocks (ofConjuncts css), ?_, spec.rewrites.trans replaced, ?_, ?_, ?_⟩
  · rw [← quantifyBlocks_eq binders]
    exact bind_eq_ok_iff.2 ⟨ψ, found, bind_eq_ok_iff.2 ⟨_, form, rfl⟩⟩
  · rw [blocks]
    exact binders
  · rw [blocks]
    exact spec.alternating
  · exact ⟨css, inside, proper⟩

/-- `r.matrix.quantifierCount = 0`: behind the quantifiers in front there is no other one. -/
theorem IsNormal.quantifierCount_matrix (h : IsNormal leaves r) : r.matrix.quantifierCount = 0 := by
  obtain ⟨css, same, proper⟩ := h.proper
  rw [same]
  exact quantifierCount_ofConjuncts proper

/-- `r.boundVariables`: only the quantifiers in front bind variables. -/
theorem IsNormal.boundVariables_eq (h : IsNormal leaves r) :
    r.boundVariables = r.blocks.flatMap Block.bound := by
  have bound := boundVariables_underBlocks r.blocks r.matrix
  rwa [underBlocks_blocks_matrix, boundVariables_of_quantifierCount h.quantifierCount_matrix,
    List.append_nil] at bound

/-- Every variable of the matrix is free or bound by one of the quantifiers in front. -/
theorem IsNormal.free_or_bound (h : IsNormal leaves r) {x : String}
    (mem : x ∈ r.matrix.occurrences) :
    x ∈ r.freeOccurrences ∨ x ∈ r.blocks.flatMap Block.bound := by
  rw [occurrences_of_quantifierCount h.quantifierCount_matrix] at mem
  by_cases bound : x ∈ r.blocks.flatMap Block.bound
  · exact .inr bound
  · have free := (mem_freeOccurrences_underBlocks r.blocks r.matrix).2 ⟨mem, bound⟩
    rw [underBlocks_blocks_matrix] at free
    exact .inl free

/-- `r.isClausal = true`: a normal form without functions is in clausal form. -/
theorem IsNormal.isClausal (h : IsNormal leaves r)
    (functionFree : ∀ a, leaves.atom a → a.hasFunctions = false) : r.isClausal = true := by
  obtain ⟨css, same, proper⟩ := h.proper
  obtain ⟨conjuncts, disjuncts⟩ := membersOf_ofConjuncts (isPlain_of_isProper proper)
  rw [Formula.isClausal, same, conjuncts, List.all_map, List.all_eq_true]
  intro c hc
  rw [Function.comp, disjuncts c hc, List.all_eq_true]
  intro φ hφ
  obtain ⟨literal, wellFormed⟩ := proper.literal c hc φ hφ
  cases wellFormed with
  | atom allowed =>
    simp [isFunctionFreeLiteral, Literal.ofFormula?, Literal.isFunctionFree, functionFree _ allowed]
  | not _ body =>
    cases body with
    | atom allowed =>
      simp [isFunctionFreeLiteral, Literal.ofFormula?, Literal.isFunctionFree,
        functionFree _ allowed]
    | _ => cases literal
  | _ => cases literal

end ClausalForm.Formula
