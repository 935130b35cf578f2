import ClausalForm.Proofs.FrontQuantifiers
import Mathlib.Data.List.Flatten

/-! # Merging the quantifiers of one kind

What the members of one kind of a connective become is described by `Formula.Merges`, whether they
are coalesced one after the other or concatenated.

* **`Formula.Merges`**: a quantifier that may replace all members of its kind.
* **`Formula.merges_of_foldlM`**, **`Formula.exists_foldlM_coalesce`**: quantifiers coalesced one
  after the other.
* **`Formula.merges_of_concatenate`**, **`Formula.exists_concatenate`**: quantifiers concatenated.
* **`Formula.mergedMember_cases`**, **`Formula.exists_mergedMember`**: whichever of them is done. -/

namespace ClausalForm.Formula

variable {leaves : Leaves} {q : Quantifier} {op : Connective} {xs ys : List String}
  {φ ψ χ : Formula} {φs ψs : List Formula}

/-! ## Coalescing one after the other -/

/-- `Merges leaves op q φs χ`: a quantifier that may replace all members of its kind. -/
structure Merges (leaves : Leaves) (op : Connective) (q : Quantifier) (φs : List Formula)
    (χ : Formula) : Prop where
  kind : χ.isQuantifiedBy q = true
  rewrites : Rewrites (.connective op φs) χ
  wellFormed : χ.WellFormed leaves
  movable : (∀ φ ∈ φs, φ.Movable op) → χ.Movable op

/-- `Merges leaves op q [φ] φ`: one quantifier replaces itself. -/
theorem Merges.single (kind : φ.isQuantifiedBy q = true) (wellFormed : φ.WellFormed leaves) :
    Merges leaves op q [φ] φ :=
  ⟨kind, .of_singleton, wellFormed, fun h => h φ List.mem_cons_self⟩

/-- `coalesce φ ψ = .ok χ`: two quantifiers are replaced by what they are coalesced into. -/
theorem Merges.pair (left : φ.isQuantifiedBy q = true) (leftWellFormed : φ.WellFormed leaves)
    (right : ψ.isQuantifiedBy q = true) (rightWellFormed : ψ.WellFormed leaves)
    (h : coalesce φ ψ = .ok χ) : Merges leaves q.distributesOver q [φ, ψ] χ := by
  obtain ⟨xs, φ, rfl⟩ := isQuantifiedBy_iff.1 left
  obtain ⟨ys, ψ, rfl⟩ := isQuantifiedBy_iff.1 right
  have coalesced := coalesced_of_coalesce h
  have wellFormed := coalesced.wellFormed leftWellFormed rightWellFormed
  cases leftWellFormed with
  | quantified leftBinder leftBody =>
    cases rightWellFormed with
    | quantified rightBinder rightBody =>
      have rewrites := coalesced.rewrites leftBinder rightBinder
      cases coalesced with
      | intro alignedLeft alignedRight _ _ built =>
        rw [quantify_of_isBinder (isBinder_mergedVariables leftBinder rightBinder)]
          at wellFormed rewrites ⊢
        refine ⟨by simp [isQuantifiedBy, quantifier?], rewrites, wellFormed, ?_⟩
        intro h θ mem
        have leftMovable : (Formula.quantified q xs φ).Movable q.distributesOver := h _ (by simp)
        have rightMovable : (Formula.quantified q ys ψ).Movable q.distributesOver := h _ (by simp)
        have members := alignedLeft.wellFormed_pair alignedRight leftBody rightBody
        -- What the body contributes comes from one of the two aligned bodies.
        rw [membersOf_of_combine members built] at mem
        obtain ⟨part, hpart, inPart⟩ := List.mem_flatMap.1 mem
        rcases List.mem_pair.1 hpart with rfl | rfl
        · exact alignedLeft.isPrenex leftMovable θ inPart
        · exact alignedRight.isPrenex rightMovable θ inPart

/-- `Merges` on `φs ++ ψs`: what some members are replaced by may be replaced together with further
members. -/
theorem Merges.step (first : Merges leaves op q φs ψ) (rest : Merges leaves op q (ψ :: ψs) χ) :
    Merges leaves op q (φs ++ ψs) χ := by
  refine ⟨rest.kind, ?_, rest.wellFormed, fun h => rest.movable fun θ mem => ?_⟩
  · exact (Rewrites.append first.rewrites.to_singleton (.refl _)).trans rest.rewrites
  · rcases List.mem_cons.1 mem with rfl | mem
    · exact first.movable fun φ hφ => h φ (List.mem_append_left _ hφ)
    · exact h θ (List.mem_append_right _ mem)

/-- `ψs.foldlM coalesce φ = .ok χ`: quantifiers coalesced one after the other are replaced by the
result. -/
theorem merges_of_foldlM (kind : ∀ ψ ∈ φ :: ψs, ψ.isQuantifiedBy q = true)
    (wellFormed : ∀ ψ ∈ φ :: ψs, ψ.WellFormed leaves) (h : ψs.foldlM coalesce φ = .ok χ) :
    Merges leaves q.distributesOver q (φ :: ψs) χ := by
  induction ψs generalizing φ with
  | nil =>
    rw [← Except.ok.inj h]
    exact .single (kind φ List.mem_cons_self) (wellFormed φ List.mem_cons_self)
  | cons ψ ψs ih =>
    rw [List.foldlM_cons] at h
    obtain ⟨φ', first, rest⟩ := bind_eq_ok_iff.1 h
    simp only [List.forall_mem_cons] at kind wellFormed
    have pair := Merges.pair kind.1 wellFormed.1 kind.2.1 wellFormed.2.1 first
    -- The merge of the first two is merged with the others.
    refine pair.step (ih ?_ ?_ rest)
    · exact List.forall_mem_cons.2 ⟨pair.kind, kind.2.2⟩
    · exact List.forall_mem_cons.2 ⟨pair.wellFormed, wellFormed.2.2⟩

/-- `ψs.foldlM coalesce φ`: separated quantifiers can be coalesced one after the other. -/
theorem exists_foldlM_coalesce (kind : ∀ ψ ∈ φ :: ψs, ψ.isQuantifiedBy q = true)
    (wellFormed : ∀ ψ ∈ φ :: ψs, ψ.WellFormed leaves)
    (separated : (Formula.connective q.distributesOver (φ :: ψs)).Separated) :
    ∃ χ, ψs.foldlM coalesce φ = .ok χ := by
  induction ψs generalizing φ with
  | nil => exact ⟨φ, rfl⟩
  | cons ψ ψs ih =>
    simp only [List.forall_mem_cons] at kind wellFormed
    change (Formula.connective q.distributesOver ([φ, ψ] ++ ψs)).Separated at separated
    obtain ⟨φ', first⟩ : ∃ φ', coalesce φ ψ = .ok φ' := by
      obtain ⟨xs, φ, rfl⟩ := isQuantifiedBy_iff.1 kind.1
      obtain ⟨ys, ψ, rfl⟩ := isQuantifiedBy_iff.1 kind.2.1
      exact exists_coalesce wellFormed.1 wellFormed.2.1 (separated_append_iff.1 separated).1
    have pair := Merges.pair kind.1 wellFormed.1 kind.2.1 wellFormed.2.1 first
    have replaced : Rewrites (.connective q.distributesOver ([φ, ψ] ++ ψs))
        (.connective q.distributesOver ([φ'] ++ ψs)) := .append pair.rewrites.to_singleton (.refl _)
    obtain ⟨χ, rest⟩ := ih (List.forall_mem_cons.2 ⟨pair.kind, kind.2.2⟩)
      (List.forall_mem_cons.2 ⟨pair.wellFormed, wellFormed.2.2⟩) (replaced.separated separated)
    exact ⟨χ, by rw [List.foldlM_cons]; exact bind_eq_ok_iff.2 ⟨φ', first, rest⟩⟩

/-! ## Concatenating -/

/-- `binders φs`: the variables that the quantifiers of a list bind. -/
def binders (φs : List Formula) : List String := φs.flatMap fun φ => φ.boundHere?.getD []

/-- `firstRepeated? ys xs = none`: a search for a repetition fails if nothing is repeated, and
nothing was seen before. -/
theorem firstRepeated?_eq_none_iff :
    firstRepeated? ys xs = none ↔ xs.Nodup ∧ ∀ x ∈ xs, x ∉ ys := by
  induction xs generalizing ys with
  | nil => simp [firstRepeated?]
  | cons x xs ih =>
    rw [firstRepeated?]
    by_cases seen : x ∈ ys
    · rw [if_pos seen]
      constructor
      · intro found
        cases found
      · intro h
        exact absurd seen (h.2 x List.mem_cons_self)
    · rw [if_neg seen, ih, List.nodup_cons]
      grind

/-- `concatenate q op φs = .ok χ`: concatenating succeeds exactly if no variable is bound twice or
free in one of the quantifiers, and returns one quantifier over all variables. -/
theorem concatenate_eq_ok_iff :
    concatenate q op φs = .ok χ ↔ (binders φs).Nodup ∧
      (∀ φ ∈ φs, ∀ x ∈ φ.freeOccurrences, x ∉ binders φs) ∧
        ∃ body, combine op (φs.filterMap body?) = .ok body ∧ χ = quantify q (binders φs) body := by
  have all : (φs.flatMap fun φ => φ.boundHere?.getD []) = binders φs := rfl
  simp only [concatenate, all]
  split
  -- The two checks fail exactly if their conditions do, in their order.
  · next x repeated =>
    refine iff_of_false (by simp) ?_
    intro h
    rw [firstRepeated?_eq_none_iff.2 ⟨h.1, fun _ _ => List.not_mem_nil⟩] at repeated
    cases repeated
  · next distinct =>
    have nodup := (firstRepeated?_eq_none_iff.1 distinct).1
    split
    · next x captured =>
      refine iff_of_false (by simp) ?_
      intro h
      rw [List.findSome?_eq_none_iff.2 fun φ mem => captured?_eq_none_iff.2 (h.2.1 φ mem)]
        at captured
      cases captured
    · next uncaptured =>
      have fresh : ∀ φ ∈ φs, ∀ x ∈ φ.freeOccurrences, x ∉ binders φs := fun φ mem =>
        captured?_eq_none_iff.1 (List.findSome?_eq_none_iff.1 uncaptured φ mem)
      rw [map_eq_ok_iff]
      constructor
      · rintro ⟨body, built, rfl⟩
        exact ⟨nodup, fresh, body, built, rfl⟩
      · rintro ⟨-, -, body, built, rfl⟩
        exact ⟨body, built, rfl⟩

/-- Quantifiers of one kind that bind different variables, none of them free in another one, as one
quantifier. -/
theorem rewrites_concatenated (kind : ∀ φ ∈ φs, φ.isQuantifiedBy q = true)
    (nodup : (binders φs).Nodup) (fresh : ∀ φ ∈ φs, ∀ x ∈ φ.freeOccurrences, x ∉ binders φs) :
    Rewrites (.connective op φs)
      (.quantified q (binders φs) (.connective op (φs.filterMap body?))) := by
  induction φs with
  | nil => exact .quantified_nil
  | cons φ φs ih =>
    simp only [List.forall_mem_cons] at kind fresh
    obtain ⟨xs, ψ, rfl⟩ := isQuantifiedBy_iff.1 kind.1
    have split : binders (.quantified q xs ψ :: φs) = xs ++ binders φs := rfl
    rw [split, List.nodup_append] at nodup
    rw [split] at fresh ⊢
    simp only [List.mem_append, not_or] at fresh
    -- The first quantifier moves over the others, and these move over its body.
    have rest := ih kind.2 nodup.2.1 fun θ mem x hx => (fresh.2 θ mem x hx).2
    have inner : ∀ θ ∈ [ψ] ++ [], ∀ x ∈ θ.freeOccurrences, x ∉ binders φs := by
      simp only [List.append_nil, List.mem_singleton, forall_eq]
      intro x hx mem
      by_cases here : x ∈ xs
      · exact nodup.2.2 x here x mem rfl
      · exact (fresh.1 x (mem_freeOccurrences_quantified.2 ⟨hx, here⟩)).2 mem
    have first : Rewrites (.connective op ([] ++ .quantified q xs ψ :: φs))
        (.quantified q xs (.connective op ([] ++ ψ :: φs))) :=
      .pull fun θ mem x hx => (fresh.2 θ mem x hx).1
    have second : Rewrites (.connective op ([ψ] ++ φs))
        (.connective op
          ([ψ] ++ [.quantified q (binders φs) (.connective op (φs.filterMap body?))])) :=
      .append (.refl _) rest.to_singleton
    exact first.trans <| (second.quantified).trans <| ((Rewrites.pull inner).quantified).trans <|
      (Rewrites.splice.quantified).quantified.trans .nested

/-- A body of a well-formed quantifier, with the variables over it. -/
theorem WellFormed.of_mem_bodies (kind : ∀ φ ∈ φs, φ.isQuantifiedBy q = true)
    (wellFormed : ∀ φ ∈ φs, φ.WellFormed leaves) (mem : ψ ∈ φs.filterMap body?) :
    ∃ xs, IsBinder xs ∧ ψ.WellFormed leaves ∧ .quantified q xs ψ ∈ φs := by
  obtain ⟨φ, hφ, body⟩ := List.mem_filterMap.1 mem
  obtain ⟨xs, θ, rfl⟩ := isQuantifiedBy_iff.1 (kind φ hφ)
  cases Option.some.inj body
  cases wellFormed _ hφ with
  | quantified binder body => exact ⟨xs, binder, body, hφ⟩

/-- `φs.filterMap body?`: the bodies of well-formed quantifiers are well-formed. -/
theorem wellFormed_bodies (kind : ∀ φ ∈ φs, φ.isQuantifiedBy q = true)
    (wellFormed : ∀ φ ∈ φs, φ.WellFormed leaves) :
    ∀ ψ ∈ φs.filterMap body?, ψ.WellFormed leaves := by
  intro ψ mem
  obtain ⟨_, _, body, _⟩ := WellFormed.of_mem_bodies kind wellFormed mem
  exact body

/-- Every one of some quantifiers has a body. -/
theorem length_bodies (kind : ∀ φ ∈ φs, φ.isQuantifiedBy q = true) :
    (φs.filterMap body?).length = φs.length := by
  induction φs with
  | nil => rfl
  | cons φ φs ih =>
    simp only [List.forall_mem_cons] at kind
    obtain ⟨xs, ψ, rfl⟩ := isQuantifiedBy_iff.1 kind.1
    rw [List.filterMap_cons_some (by rw [body?]), List.length_cons, List.length_cons, ih kind.2]

/-- `IsBinder (binders φs)`: different variables of well-formed quantifiers may be bound
together. -/
theorem isBinder_binders (some : φs ≠ []) (kind : ∀ φ ∈ φs, φ.isQuantifiedBy q = true)
    (wellFormed : ∀ φ ∈ φs, φ.WellFormed leaves) (nodup : (binders φs).Nodup) :
    IsBinder (binders φs) := by
  have each : ∀ φ ∈ φs, ∃ xs, φ.boundHere?.getD [] = xs ∧ IsBinder xs := by
    intro φ mem
    obtain ⟨xs, ψ, rfl⟩ := isQuantifiedBy_iff.1 (kind φ mem)
    cases wellFormed _ mem with
    | quantified binder => exact ⟨xs, rfl, binder⟩
  refine ⟨?_, nodup, ?_⟩
  · intro none
    obtain ⟨φ, mem⟩ := List.exists_mem_of_ne_nil φs some
    obtain ⟨xs, same, binder⟩ := each φ mem
    exact binder.some (same ▸ List.flatMap_eq_nil_iff.1 none φ mem)
  · intro unnamed
    obtain ⟨φ, mem, hφ⟩ := List.mem_flatMap.1 unnamed
    obtain ⟨xs, same, binder⟩ := each φ mem
    exact binder.named (same ▸ hφ)

/-- `concatenate q op φs = .ok χ`: quantifiers that are concatenated are replaced by the result. -/
theorem merges_of_concatenate (some : φs ≠ []) (kind : ∀ φ ∈ φs, φ.isQuantifiedBy q = true)
    (wellFormed : ∀ φ ∈ φs, φ.WellFormed leaves) (h : concatenate q op φs = .ok χ) :
    Merges leaves op q φs χ := by
  obtain ⟨nodup, fresh, body, built, rfl⟩ := concatenate_eq_ok_iff.1 h
  have binder := isBinder_binders some kind wellFormed nodup
  have bodies := wellFormed_bodies kind wellFormed
  rw [quantify_of_isBinder binder]
  refine ⟨by simp [isQuantifiedBy, quantifier?], ?_,
    .quantified binder (.of_combine bodies built), ?_⟩
  · exact (rewrites_concatenated kind nodup fresh).trans (Rewrites.of_combine built).quantified
  · intro h θ mem
    rw [membersOf_of_combine bodies built] at mem
    obtain ⟨ψ, hψ, inBody⟩ := List.mem_flatMap.1 mem
    obtain ⟨xs, _, _, hφ⟩ := WellFormed.of_mem_bodies kind wellFormed hψ
    exact h _ hφ θ inBody

/-- `concatenate q op φs`: separated quantifiers of one kind can be concatenated. -/
theorem exists_concatenate (two : 2 ≤ φs.length) (kind : ∀ φ ∈ φs, φ.isQuantifiedBy q = true)
    (wellFormed : ∀ φ ∈ φs, φ.WellFormed leaves)
    (separated : (Formula.connective op φs).Separated) : ∃ χ, concatenate q op φs = .ok χ := by
  have bound : ∀ φ ∈ φs, (φ.boundHere?.getD []).Sublist φ.boundVariables := by
    intro φ mem
    obtain ⟨xs, ψ, rfl⟩ := isQuantifiedBy_iff.1 (kind φ mem)
    rw [boundVariables_quantified]
    exact List.sublist_append_left ..
  -- The variables bound in front are some of all the bound variables, in their order.
  have sublist : (binders φs).Sublist (Formula.connective op φs).boundVariables := by
    rw [boundVariables_connective]
    exact .flatMap_right φs bound
  have fresh : ∀ φ ∈ φs, ∀ x ∈ φ.freeOccurrences, x ∉ binders φs := by
    intro φ mem x free hx
    refine separated.apart x (sublist.subset hx) ?_
    rw [freeOccurrences_connective]
    exact List.mem_flatMap.2 ⟨φ, mem, free⟩
  have bodies := wellFormed_bodies kind wellFormed
  have built := combine_of_wellFormed op (by rwa [length_bodies kind]) bodies
  exact ⟨_, concatenate_eq_ok_iff.2 ⟨separated.nodup.sublist sublist, fresh, _, built, rfl⟩⟩

/-! ## The members of one kind -/

/-- `mergedMember op φs q = .ok merged`: what the members of one kind become. Whatever is returned
replaces them, and nothing is returned only if there is at most one. -/
theorem mergedMember_cases {merged : Option Formula} (wellFormed : ∀ φ ∈ φs, φ.WellFormed leaves)
    (h : mergedMember op φs q = .ok merged) :
    merged = none ∧ (φs.filter (isQuantifiedBy q)).length ≤ 1 ∨
      ∃ χ, merged = some χ ∧ φs.filter (isQuantifiedBy q) ≠ [] ∧
        Merges leaves op q (φs.filter (isQuantifiedBy q)) χ := by
  have kind : ∀ φ ∈ φs.filter (isQuantifiedBy q), φ.isQuantifiedBy q = true := fun φ mem =>
    (List.mem_filter.1 mem).2
  have all : ∀ φ ∈ φs.filter (isQuantifiedBy q), φ.WellFormed leaves := fun φ mem =>
    wellFormed φ (List.mem_filter.1 mem).1
  unfold mergedMember at h
  split at h
  -- Two members at least: they are merged in one of two ways.
  · next φ ψ rest members =>
    rw [members] at kind all ⊢
    split at h
    · next distributes =>
      obtain ⟨χ, folded, rfl⟩ := map_eq_ok_iff.1 h
      rw [distributes] at kind ⊢
      have merges := merges_of_foldlM kind all folded
      rw [Quantifier.distributesOver_distributing] at merges
      exact .inr ⟨χ, rfl, List.cons_ne_nil _ _, merges⟩
    · obtain ⟨χ, concatenated, rfl⟩ := map_eq_ok_iff.1 h
      have some := List.cons_ne_nil φ (ψ :: rest)
      exact .inr ⟨χ, rfl, some, merges_of_concatenate some kind all concatenated⟩
  · next few =>
    refine .inl ⟨(Except.ok.inj h).symm, ?_⟩
    rcases members : φs.filter (isQuantifiedBy q) with _ | ⟨φ, _ | ⟨ψ, rest⟩⟩
    · exact Nat.zero_le 1
    · exact Nat.le_refl 1
    · exact absurd members (few φ ψ rest)

/-- A part of the members of a separated connective. -/
theorem Separated.filter (h : (Formula.connective op φs).Separated) (p : Formula → Bool) :
    (Formula.connective op (φs.filter p)).Separated :=
  (separated_append_iff.1 (h.perm (List.filter_append_perm p φs).symm)).1

/-- `mergedMember op φs q`: the members of one kind of a separated connective can be merged. -/
theorem exists_mergedMember (wellFormed : ∀ φ ∈ φs, φ.WellFormed leaves)
    (separated : (Formula.connective op φs).Separated) (q : Quantifier) :
    ∃ merged, mergedMember op φs q = .ok merged := by
  have kind : ∀ φ ∈ φs.filter (isQuantifiedBy q), φ.isQuantifiedBy q = true := fun φ mem =>
    (List.mem_filter.1 mem).2
  have all : ∀ φ ∈ φs.filter (isQuantifiedBy q), φ.WellFormed leaves := fun φ mem =>
    wellFormed φ (List.mem_filter.1 mem).1
  have part := separated.filter (isQuantifiedBy q)
  unfold mergedMember
  split
  · next φ ψ rest members =>
    rw [members] at kind all part
    split
    · next distributes =>
      obtain ⟨χ, folded⟩ := exists_foldlM_coalesce kind all (part.change q.distributesOver)
      exact ⟨some χ, map_eq_ok_iff.2 ⟨χ, folded, rfl⟩⟩
    · obtain ⟨χ, concatenated⟩ := exists_concatenate (by simp) kind all part
      exact ⟨some χ, map_eq_ok_iff.2 ⟨χ, concatenated, rfl⟩⟩
  · exact ⟨none, rfl⟩

end ClausalForm.Formula
