import ClausalForm.Proofs.Chains

/-! # Merging two quantifiers

`Formula.coalesce` makes one quantifier of two of a kind. Its cases differ in which of the bodies
is renamed; `Formula.Aligned` says what they have in common, and `Formula.Coalesced` says once all
that a merge can be.

* **`Formula.mergedVariables`**, **`Formula.mergedBody`**: the variables and the bodies of a merge.
* **`Formula.coalesced_of_coalesce`**: whatever is returned is such a merge.
* **`Formula.Coalesced.holds`**: a merge has the truth of the two quantifiers joined, whatever
  variables they share.
* **`Formula.Coalesced.within`**, **`Formula.Coalesced.wellFormed`**: its variables and its shape.
* **`Formula.conflicts_of_coalesce_eq_error`**: a merge is refused only because of a variable that
  stands in its way, so that separated quantifiers can be merged (`Formula.exists_coalesce`).
* **`Formula.coalesce_merges_or_conflicts`**: all that merging two formulas can lead to. -/

namespace ClausalForm.Formula

variable {D : Type} {S : Structure D} {leaves : Leaves} {q : Quantifier} {op : Connective}
  {xs ys zs : List String} {φ ψ χ φ' ψ' : Formula}

/-! ## Bodies below other variables -/

/-- How the body of a quantifier over `xs` stands below `zs` instead: as it is if all of `xs` are
still bound, or renamed. -/
inductive Aligned (xs : List String) (φ : Formula) (zs : List String) : Formula → Prop
  | kept (bound : ∀ x ∈ xs, x ∈ zs) : Aligned xs φ zs φ
  | renamed (le : xs.length ≤ zs.length) (unbound : ∀ z ∈ zs, z ∉ φ.boundVariables) :
      Aligned xs φ zs (φ.rename (.ofPlaces xs zs))

/-- `Aligned xs φ zs φ'`: an aligned body says below the new variables what it said below its own,
if none of them is free outside. -/
theorem Aligned.holds (h : Aligned xs φ zs φ') (nodup : zs.Nodup)
    (fresh : ∀ x ∈ (Formula.quantified q xs φ).freeOccurrences, x ∉ zs) (v : Valuation D) :
    (Formula.quantified q zs φ').Holds S v ↔ (Formula.quantified q xs φ).Holds S v := by
  have inside : ∀ x ∈ φ.freeOccurrences, x ∈ zs → x ∈ xs := by
    intro x mem hz
    by_cases hx : x ∈ xs
    · exact hx
    · exact absurd hz (fresh x (mem_freeOccurrences_quantified.2 ⟨mem, hx⟩))
  cases h with
  | kept bound => exact holds_quantified_congr fun x mem => ⟨inside x mem, bound x⟩
  | renamed le unbound => exact holds_quantified_rename le nodup unbound inside v

/-- `Aligned xs φ zs φ'`: outside of the new variables an aligned body has the free variables that
it had. -/
theorem Aligned.free (h : Aligned xs φ zs φ')
    (fresh : ∀ x ∈ (Formula.quantified q xs φ).freeOccurrences, x ∉ zs) (x : String) :
    x ∈ (Formula.quantified q zs φ').freeOccurrences ↔
      x ∈ (Formula.quantified q xs φ).freeOccurrences := by
  rw [mem_freeOccurrences_quantified]
  cases h with
  | kept bound =>
    constructor
    · rintro ⟨mem, hz⟩
      exact mem_freeOccurrences_quantified.2 ⟨mem, fun hx => hz (bound x hx)⟩
    · intro mem
      exact ⟨(mem_freeOccurrences_quantified.1 mem).1, fresh x mem⟩
  | renamed le unbound =>
    have free : RenamesFreely (.ofPlaces xs zs) φ :=
      .of_forall_mem fun p mem => unbound _ (Renaming.snd_mem_of_mem_ofPlaces mem)
    rw [mem_freeOccurrences_rename free]
    constructor
    · rintro ⟨⟨y, mem, rfl⟩, hz⟩
      -- A variable that is renamed at all is renamed to one of those now bound.
      by_cases hy : y ∈ xs
      · exact absurd (Renaming.rename_ofPlaces_mem le hy) hz
      · rw [Renaming.rename_ofPlaces_of_not_mem le hy]
        exact mem_freeOccurrences_quantified.2 ⟨mem, hy⟩
    · intro mem
      obtain ⟨inside, hx⟩ := mem_freeOccurrences_quantified.1 mem
      exact ⟨⟨x, inside, Renaming.rename_ofPlaces_of_not_mem le hx⟩, fresh x mem⟩

/-- `φ'.boundVariables = φ.boundVariables`: aligning leaves the variables bound inside a body
alone. -/
theorem Aligned.boundVariables (h : Aligned xs φ zs φ') : φ'.boundVariables = φ.boundVariables := by
  cases h with
  | kept => rfl
  | renamed => exact boundVariables_rename _ φ

/-- `φ'.signature = φ.signature`: aligning leaves the predicates of a body alone. -/
theorem Aligned.signature (h : Aligned xs φ zs φ') : φ'.signature = φ.signature := by
  cases h with
  | kept => rfl
  | renamed => exact signature_rename _ φ

/-- `φ'.WellFormed leaves`: an aligned body is well-formed. -/
theorem Aligned.wellFormed (h : Aligned xs φ zs φ') (body : φ.WellFormed leaves) :
    φ'.WellFormed leaves := by
  cases h with
  | kept => exact body
  | renamed => exact body.rename _

/-- Two aligned bodies are well-formed. -/
theorem Aligned.wellFormed_pair (left : Aligned xs φ zs φ') (right : Aligned ys ψ zs ψ')
    (leftBody : φ.WellFormed leaves) (rightBody : ψ.WellFormed leaves) :
    ∀ θ ∈ [φ', ψ'], θ.WellFormed leaves := by
  intro θ mem
  rcases List.mem_pair.1 mem with rfl | rfl
  · exact left.wellFormed leftBody
  · exact right.wellFormed rightBody

/-- `φ.renameOnto xs ys = .ok φ'`: renaming onto given variables succeeds exactly if none of them is
bound inside. -/
theorem renameOnto_eq_ok_iff :
    φ.renameOnto xs ys = .ok φ' ↔
      (∀ y ∈ ys, y ∉ φ.boundVariables) ∧ φ' = φ.rename (.ofPlaces xs ys) := by
  unfold renameOnto
  split
  · next y found =>
    have mem := List.mem_of_find?_eq_some found
    have bound := List.find?_some found
    rw [List.contains_iff_mem] at bound
    exact iff_of_false (by simp) fun h => h.1 y mem bound
  · next none =>
    have unbound : ∀ y ∈ ys, y ∉ φ.boundVariables := by simpa using none
    rw [Except.ok.injEq]
    exact ⟨fun h => ⟨unbound, h.symm⟩, fun h => h.2.symm⟩

/-- `mergedVariables xs ys`: the variables of one quantifier in place of two, over `xs` and over
`ys`. The longer list is kept; lists of one length are joined. -/
def mergedVariables (xs ys : List String) : List String :=
  if xs.length < ys.length then ys else if ys.length < xs.length then xs else distinct (xs ++ ys)

/-- `mergedBody xs ys φ`: the body `φ` of a quantifier over `xs`, as it stands below
`mergedVariables xs ys`. If `xs` is the shorter list, each of its variables is renamed to the one at
its place in `ys`. -/
def mergedBody (xs ys : List String) (φ : Formula) : Formula :=
  if xs.length < ys.length then φ.rename (.ofPlaces xs ys) else φ

/-- `z ∈ mergedVariables xs ys`: a variable of the merged quantifier is bound by one of the two. -/
theorem mem_or_mem_of_mem_mergedVariables {z : String} (mem : z ∈ mergedVariables xs ys) :
    z ∈ xs ∨ z ∈ ys := by
  unfold mergedVariables at mem
  split at mem
  · exact .inr mem
  · split at mem
    · exact .inl mem
    · rwa [mem_distinct, List.mem_append] at mem

/-- `IsBinder (mergedVariables xs ys)`: what may be bound by each of two quantifiers may be bound by
the merged one. -/
theorem isBinder_mergedVariables (left : IsBinder xs) (right : IsBinder ys) :
    IsBinder (mergedVariables xs ys) := by
  unfold mergedVariables
  split
  · exact right
  · split
    · exact left
    · exact left.union right

/-- `align xs ys φ ψ = .ok (zs, φ', ψ')`: the variables and bodies are the merged ones, and both
bodies are aligned. -/
theorem aligned_of_align (h : align xs ys φ ψ = .ok (zs, φ', ψ')) :
    (zs = mergedVariables xs ys ∧ φ' = mergedBody xs ys φ ∧ ψ' = mergedBody ys xs ψ) ∧
      Aligned xs φ zs φ' ∧ Aligned ys ψ zs ψ' := by
  unfold align at h
  unfold mergedVariables mergedBody
  split at h
  · next lt =>
    -- The left list is the shorter one, so the left body is renamed.
    obtain ⟨χ, renamed, same⟩ := bind_eq_ok_iff.1 h
    cases same
    obtain ⟨unbound, rfl⟩ := renameOnto_eq_ok_iff.1 renamed
    rw [if_pos lt, if_pos lt, if_neg (Nat.lt_asymm lt)]
    exact ⟨⟨rfl, rfl, rfl⟩, .renamed (Nat.le_of_lt lt) unbound, .kept fun _ => id⟩
  · next notLt =>
    rw [if_neg notLt, if_neg notLt]
    split at h
    · next lt =>
      obtain ⟨χ, renamed, same⟩ := bind_eq_ok_iff.1 h
      cases same
      obtain ⟨unbound, rfl⟩ := renameOnto_eq_ok_iff.1 renamed
      rw [if_pos lt, if_pos lt]
      exact ⟨⟨rfl, rfl, rfl⟩, .kept fun _ => id, .renamed (Nat.le_of_lt lt) unbound⟩
    · next notGt =>
      -- The lists are of one length: both bodies stay, under all of the variables.
      cases h
      rw [if_neg notGt, if_neg notGt]
      exact ⟨⟨rfl, rfl, rfl⟩, .kept fun x mem => by simp [mem], .kept fun x mem => by simp [mem]⟩

/-! ## Two quantifiers merged -/

/-- `Coalesced φ ψ χ`: all that a merge `χ` of two quantifiers can be. It is one quantifier over
`mergedVariables xs ys`, none of them free in either of the two, and its body is built of both
bodies. -/
inductive Coalesced : Formula → Formula → Formula → Prop
  | intro {q : Quantifier} {xs ys : List String} {φ ψ body : Formula}
      (left : Aligned xs φ (mergedVariables xs ys) (mergedBody xs ys φ))
      (right : Aligned ys ψ (mergedVariables xs ys) (mergedBody ys xs ψ))
      (leftFresh : ∀ x ∈ (Formula.quantified q xs φ).freeOccurrences, x ∉ mergedVariables xs ys)
      (rightFresh : ∀ x ∈ (Formula.quantified q ys ψ).freeOccurrences, x ∉ mergedVariables xs ys)
      (built : combine q.distributesOver [mergedBody xs ys φ, mergedBody ys xs ψ] = .ok body) :
      Coalesced (.quantified q xs φ) (.quantified q ys ψ)
        (quantify q (mergedVariables xs ys) body)

/-- `captured? xs φ = none`: no variable is captured exactly if none of the variables is free. -/
theorem captured?_eq_none_iff : captured? xs φ = none ↔ ∀ x ∈ φ.freeOccurrences, x ∉ xs := by
  simp [captured?]

/-- `coalesce (quantified q xs φ) (quantified q ys ψ) = .ok χ`: merging aligns the bodies, checks
the free variables of both quantifiers, and builds the body of the merged one. -/
theorem coalesce_eq_ok_iff : coalesce (.quantified q xs φ) (.quantified q ys ψ) = .ok χ ↔
    ∃ zs φ' ψ' body, align xs ys φ ψ = .ok (zs, φ', ψ') ∧
      (∀ x ∈ (Formula.quantified q xs φ).freeOccurrences, x ∉ zs) ∧
      (∀ x ∈ (Formula.quantified q ys ψ).freeOccurrences, x ∉ zs) ∧
        combine q.distributesOver [φ', ψ'] = .ok body ∧ χ = quantify q zs body := by
  -- Neither quantifier has a free variable that the merged one would bind.
  have uncaptured : ∀ zs, [Formula.quantified q xs φ, .quantified q ys ψ].findSome?
      (captured? zs) = none ↔ (∀ x ∈ (Formula.quantified q xs φ).freeOccurrences, x ∉ zs) ∧
        ∀ x ∈ (Formula.quantified q ys ψ).freeOccurrences, x ∉ zs := by
    intro zs
    simp only [List.findSome?_eq_none_iff, List.mem_cons, List.not_mem_nil, or_false,
      forall_eq_or_imp, forall_eq, captured?_eq_none_iff]
  rw [coalesce, if_pos rfl, bind_eq_ok_iff]
  constructor
  · rintro ⟨⟨zs, φ', ψ'⟩, aligned, h⟩
    dsimp only at h
    split at h
    · cases h
    · next none =>
      obtain ⟨body, built, same⟩ := bind_eq_ok_iff.1 h
      obtain ⟨left, right⟩ := (uncaptured zs).1 none
      exact ⟨zs, φ', ψ', body, aligned, left, right, built, (Except.ok.inj same).symm⟩
  · rintro ⟨zs, φ', ψ', body, aligned, left, right, built, rfl⟩
    refine ⟨_, aligned, ?_⟩
    dsimp only
    rw [(uncaptured zs).2 ⟨left, right⟩]
    exact bind_eq_ok_iff.2 ⟨body, built, rfl⟩

/-- `Coalesced φ ψ χ`: whatever merging returns is a merge. -/
theorem coalesced_of_coalesce (h : coalesce φ ψ = .ok χ) : Coalesced φ ψ χ := by
  cases φ with
  | quantified q xs φ =>
    cases ψ with
    | quantified r ys ψ =>
      by_cases kind : q = r
      · subst kind
        obtain ⟨zs, φ', ψ', body, aligned, leftFresh, rightFresh, built, rfl⟩ :=
          coalesce_eq_ok_iff.1 h
        obtain ⟨⟨rfl, rfl, rfl⟩, left, right⟩ := aligned_of_align aligned
        exact .intro left right leftFresh rightFresh built
      · -- Quantifiers of different kinds are refused.
        rw [coalesce, if_neg kind] at h
        cases h
    | _ => cases h
  | _ => cases ψ <;> cases h

/-- `χ.Holds S v`: a merge has the truth of the two quantifiers, joined by the connective that they
distribute over. -/
theorem Coalesced.holds (h : Coalesced (.quantified q xs φ) (.quantified q ys ψ) χ)
    (leftBinder : IsBinder xs) (rightBinder : IsBinder ys) (v : Valuation D) :
    χ.Holds S v ↔ (Formula.connective q.distributesOver
      [.quantified q xs φ, .quantified q ys ψ]).Holds S v := by
  cases h with
  | @intro _ _ _ _ _ body left right leftFresh rightFresh built =>
    have nodup := (isBinder_mergedVariables leftBinder rightBinder).nodup
    set zs := mergedVariables xs ys
    calc (quantify q zs body).Holds S v
      _ ↔ (Formula.quantified q zs (.connective q.distributesOver
            [mergedBody xs ys φ, mergedBody ys xs ψ])).Holds S v := by
        rw [holds_quantify]
        exact holds_quantified_iff fun w => holds_combine built
      _ ↔ (Formula.connective q.distributesOver [.quantified q zs (mergedBody xs ys φ),
            .quantified q zs (mergedBody ys xs ψ)]).Holds S v := holds_distributed.symm
      _ ↔ _ := holds_pair_congr _ (left.holds nodup leftFresh v) (right.holds nodup rightFresh v)

/-- `χ.signature`: a merge uses the predicates of the two quantifiers. -/
theorem Coalesced.signature (h : Coalesced (.quantified q xs φ) (.quantified q ys ψ) χ) :
    χ.signature = φ.signature ++ ψ.signature := by
  cases h with
  | intro left right leftFresh rightFresh built =>
    rw [signature_quantify, signature_of_combine built, List.flatMap_cons, List.flatMap_singleton,
      left.signature, right.signature]

/-- `χ = .quantified q (mergedVariables xs ys) body`: a merge is one quantifier, over a body that is
built of both bodies. -/
theorem Coalesced.exists_body (h : Coalesced (.quantified q xs φ) (.quantified q ys ψ) χ)
    (leftBinder : IsBinder xs) (rightBinder : IsBinder ys) :
    ∃ body, χ = .quantified q (mergedVariables xs ys) body ∧
      combine q.distributesOver [mergedBody xs ys φ, mergedBody ys xs ψ] = .ok body := by
  cases h with
  | intro left right leftFresh rightFresh built =>
    exact ⟨_, quantify_of_isBinder (isBinder_mergedVariables leftBinder rightBinder), built⟩

/-- `χ.WellFormed leaves`: a merge of well-formed quantifiers is well-formed. -/
theorem Coalesced.wellFormed (h : Coalesced φ ψ χ) (left : φ.WellFormed leaves)
    (right : ψ.WellFormed leaves) : χ.WellFormed leaves := by
  cases h with
  | intro alignedLeft alignedRight _ _ built =>
    cases left with
    | quantified leftBinder leftBody =>
      cases right with
      | quantified rightBinder rightBody =>
        have binder := isBinder_mergedVariables leftBinder rightBinder
        rw [quantify_of_isBinder binder]
        have bodies := alignedLeft.wellFormed_pair alignedRight leftBody rightBody
        exact .quantified binder (.of_combine bodies built)

/-- `χ.Within`: the variables of a merge are those of the two quantifiers, if these are
separated. -/
theorem Coalesced.within (h : Coalesced (.quantified q xs φ) (.quantified q ys ψ) χ)
    (leftBinder : IsBinder xs) (rightBinder : IsBinder ys)
    (separated : (Formula.connective op [.quantified q xs φ, .quantified q ys ψ]).Separated) :
    χ.Within (.connective op [.quantified q xs φ, .quantified q ys ψ]) := by
  cases h with
  | @intro _ _ _ _ _ body left right leftFresh rightFresh built =>
    have binder := isBinder_mergedVariables leftBinder rightBinder
    rw [quantify_of_isBinder binder]
    set zs := mergedVariables xs ys
    have bound : (Formula.quantified q zs body).boundVariables =
        zs ++ (φ.boundVariables ++ ψ.boundVariables) := by
      rw [boundVariables_quantified, boundVariables_of_combine built, List.flatMap_cons,
        List.flatMap_cons, List.flatMap_nil, List.append_nil, left.boundVariables,
        right.boundVariables]
    have nodup := separated.nodup
    simp only [boundVariables_connective, List.flatMap_cons, List.flatMap_nil, List.append_nil,
      boundVariables_quantified, List.nodup_append, List.mem_append] at nodup
    obtain ⟨⟨-, leftNodup, leftApart⟩, ⟨-, rightNodup, rightApart⟩, apart⟩ := nodup
    refine ⟨?_, ?_, ?_⟩
    · -- What is free in the merge is free in one of the aligned bodies.
      intro x
      have leftFree := left.free leftFresh x
      have rightFree := right.free rightFresh x
      simp only [mem_freeOccurrences_quantified] at leftFree rightFree
      simp only [mem_freeOccurrences_quantified, freeOccurrences_of_combine built,
        freeOccurrences_connective, List.flatMap_cons, List.flatMap_nil, List.append_nil,
        List.mem_append, ← leftFree, ← rightFree, or_and_right]
    · -- What is bound is one of the chosen variables, or is bound inside of a body.
      intro x mem
      simp only [bound, List.mem_append] at mem
      simp only [boundVariables_connective, List.flatMap_cons, List.flatMap_nil, List.append_nil,
        boundVariables_quantified, List.mem_append]
      rcases mem with mem | mem | mem
      · exact (mem_or_mem_of_mem_mergedVariables mem).imp .inl .inl
      · exact .inl (.inr mem)
      · exact .inr (.inr mem)
    · -- Each variable of the merge comes from one side, and is not bound inside of either.
      rw [bound, List.nodup_append, List.nodup_append]
      refine ⟨binder.nodup, ⟨leftNodup, rightNodup, ?_⟩, ?_⟩
      · intro x hx y hy
        exact apart x (.inr hx) y (.inr hy)
      · intro x hx y hy
        rcases List.mem_append.1 hy with inLeft | inRight
        · rcases mem_or_mem_of_mem_mergedVariables hx with mem | mem
          · exact leftApart x mem y inLeft
          · exact (apart y (.inr inLeft) x (.inl mem)).symm
        · rcases mem_or_mem_of_mem_mergedVariables hx with mem | mem
          · exact apart x (.inl mem) y (.inr inRight)
          · exact rightApart x mem y inRight

/-- `Rewrites`: a merge may replace the two quantifiers under the connective that they distribute
over. -/
theorem Coalesced.rewrites (h : Coalesced (.quantified q xs φ) (.quantified q ys ψ) χ)
    (leftBinder : IsBinder xs) (rightBinder : IsBinder ys) :
    Rewrites (.connective q.distributesOver [.quantified q xs φ, .quantified q ys ψ]) χ :=
  ⟨fun _ v => h.holds leftBinder rightBinder v, fun p => by simp [h.signature],
    h.within leftBinder rightBinder⟩

/-! ## Merges that are refused -/

/-- `Conflicts q xs ys φ ψ conflict`: why two quantifiers cannot be merged. One of their variables
is bound inside the body that is to be renamed, or is free in one of them. -/
inductive Conflicts (q : Quantifier) (xs ys : List String) (φ ψ : Formula) : ScopeConflict → Prop
  | boundInside {x : String} {body : Formula} (mem : x ∈ xs ++ ys) (here : body ∈ [φ, ψ])
      (bound : x ∈ body.boundVariables) : Conflicts q xs ys φ ψ (.renamingCaptured x body)
  | freeBeside {x : String} (mem : x ∈ xs ++ ys)
      (free : x ∈ (Formula.quantified q xs φ).freeOccurrences ∨
        x ∈ (Formula.quantified q ys ψ).freeOccurrences) :
      Conflicts q xs ys φ ψ (.coalescingCaptures (.quantified q xs φ) (.quantified q ys ψ) x)

/-- `φ.renameOnto xs ys = .error e`: renaming onto given variables is refused only because of one
that is bound inside. -/
theorem of_renameOnto_eq_error {e : NormalizationError} (h : φ.renameOnto xs ys = .error e) :
    ∃ y ∈ ys, y ∈ φ.boundVariables ∧ e = .scope (.renamingCaptured y φ) := by
  unfold renameOnto at h
  split at h
  · next y found =>
    have bound := List.find?_some found
    rw [List.contains_iff_mem] at bound
    exact ⟨y, List.mem_of_find?_eq_some found, bound, (Except.error.inj h).symm⟩
  · cases h

/-- `align xs ys φ ψ = .error e`: aligning is refused only because of a conflict. -/
theorem conflicts_of_align_eq_error {e : NormalizationError}
    (h : align xs ys φ ψ = .error e) (q : Quantifier) :
    ∃ conflict, e = .scope conflict ∧ Conflicts q xs ys φ ψ conflict := by
  unfold align at h
  split at h
  · rcases bind_eq_error_iff.1 h with refused | ⟨_, _, nothing⟩
    · obtain ⟨y, mem, bound, rfl⟩ := of_renameOnto_eq_error refused
      exact ⟨_, rfl, .boundInside (List.mem_append_right _ mem) (by simp) bound⟩
    · cases nothing
  · split at h
    · rcases bind_eq_error_iff.1 h with refused | ⟨_, _, nothing⟩
      · obtain ⟨x, mem, bound, rfl⟩ := of_renameOnto_eq_error refused
        exact ⟨_, rfl, .boundInside (List.mem_append_left _ mem) (by simp) bound⟩
      · cases nothing
    · cases h

/-- `coalesce` on two well-formed quantifiers of one kind is refused only because of a conflict. -/
theorem conflicts_of_coalesce_eq_error {e : NormalizationError}
    (left : (Formula.quantified q xs φ).WellFormed leaves)
    (right : (Formula.quantified q ys ψ).WellFormed leaves)
    (h : coalesce (.quantified q xs φ) (.quantified q ys ψ) = .error e) :
    ∃ conflict, e = .scope conflict ∧ Conflicts q xs ys φ ψ conflict := by
  rw [coalesce, if_pos rfl] at h
  rcases bind_eq_error_iff.1 h with refused | ⟨⟨zs, φ', ψ'⟩, aligned, h⟩
  · exact conflicts_of_align_eq_error refused q
  obtain ⟨⟨rfl, rfl, rfl⟩, alignedLeft, alignedRight⟩ := aligned_of_align aligned
  dsimp only at h
  split at h
  · next x captured =>
    -- The variable that is named is one of the chosen variables, and free in one of the two.
    obtain ⟨θ, mem, found⟩ := List.exists_of_findSome?_eq_some captured
    have inside := List.find?_some found
    rw [List.contains_iff_mem] at inside
    have free := mem_freeVariables.1 (List.mem_of_find?_eq_some found)
    refine ⟨_, (Except.error.inj h).symm, .freeBeside ?_ ?_⟩
    · exact List.mem_append.2 (mem_or_mem_of_mem_mergedVariables inside)
    · rcases List.mem_pair.1 mem with rfl | rfl
      · exact .inl free
      · exact .inr free
  · -- The body of the merge can be built, as both bodies are well-formed.
    have members : ∀ θ ∈ [mergedBody xs ys φ, mergedBody ys xs ψ], θ.WellFormed leaves := by
      intro θ mem
      rcases List.mem_pair.1 mem with rfl | rfl
      · exact alignedLeft.wellFormed (wellFormed_quantified_iff.1 left).2
      · exact alignedRight.wellFormed (wellFormed_quantified_iff.1 right).2
    rw [combine_of_wellFormed q.distributesOver (by simp) members] at h
    cases h

/-- `coalesce` succeeds on well-formed quantifiers of one kind, if none of their variables is free
in either of them or bound inside either body. -/
theorem exists_coalesce_of_unused (left : (Formula.quantified q xs φ).WellFormed leaves)
    (right : (Formula.quantified q ys ψ).WellFormed leaves)
    (unfree : ∀ x ∈ xs ++ ys, x ∉ (Formula.quantified q xs φ).freeOccurrences ∧
      x ∉ (Formula.quantified q ys ψ).freeOccurrences)
    (unbound : ∀ x ∈ xs ++ ys, x ∉ φ.boundVariables ∧ x ∉ ψ.boundVariables) :
    ∃ χ, coalesce (.quantified q xs φ) (.quantified q ys ψ) = .ok χ := by
  cases result : coalesce (.quantified q xs φ) (.quantified q ys ψ) with
  | ok χ => exact ⟨χ, rfl⟩
  | error e =>
    obtain ⟨conflict, -, conflicts⟩ := conflicts_of_coalesce_eq_error left right result
    cases conflicts with
    | boundInside mem here bound =>
      rcases List.mem_pair.1 here with rfl | rfl
      · exact absurd bound (unbound _ mem).1
      · exact absurd bound (unbound _ mem).2
    | freeBeside mem free =>
      rcases free with free | free
      · exact absurd free (unfree _ mem).1
      · exact absurd free (unfree _ mem).2

/-- `coalesce` succeeds on separated well-formed quantifiers of one kind. -/
theorem exists_coalesce (left : (Formula.quantified q xs φ).WellFormed leaves)
    (right : (Formula.quantified q ys ψ).WellFormed leaves)
    (separated : (Formula.connective op [.quantified q xs φ, .quantified q ys ψ]).Separated) :
    ∃ χ, coalesce (.quantified q xs φ) (.quantified q ys ψ) = .ok χ := by
  have nodup := separated.nodup
  have apart := separated.apart
  simp only [boundVariables_connective, freeOccurrences_connective, List.flatMap_cons,
    List.flatMap_nil, List.append_nil, boundVariables_quantified, List.mem_append] at nodup apart
  refine exists_coalesce_of_unused left right ?_ ?_
  · intro x mem
    rw [← not_or]
    exact apart x ((List.mem_append.1 mem).imp .inl .inl)
  · -- Each variable is bound once, so that no body binds a variable of a quantifier.
    obtain ⟨leftNodup, rightNodup, across⟩ := List.nodup_append.1 nodup
    have inLeft := (List.nodup_append.1 leftNodup).2.2
    have inRight := (List.nodup_append.1 rightNodup).2.2
    intro x mem
    rcases List.mem_append.1 mem with mem | mem
    · exact ⟨fun bound => inLeft x mem x bound rfl,
        fun bound => across x (by simp [mem]) x (by simp [bound]) rfl⟩
    · exact ⟨fun bound => across x (by simp [bound]) x (by simp [mem]) rfl,
        fun bound => inRight x mem x bound rfl⟩

/-- `φ.isQuantifiedBy q`: a formula is a quantifier of some kind if it has that form. -/
theorem isQuantifiedBy_iff : φ.isQuantifiedBy q = true ↔ ∃ xs ψ, φ = .quantified q xs ψ := by
  cases φ with
  | quantified r xs ψ => simp [isQuantifiedBy, quantifier?, eq_comm]
  | _ => simp [isQuantifiedBy, quantifier?]

/-- `coalesce φ ψ = .error (.mismatch found)`: two formulas can be merged only if they are
quantifiers of one kind. -/
theorem mismatch_of_coalesce
    (other : ¬ ∃ q, φ.isQuantifiedBy q = true ∧ ψ.isQuantifiedBy q = true) :
    ∃ found, coalesce φ ψ = .error (.mismatch found) := by
  unfold coalesce
  split
  · next q xs φ r ys ψ =>
    rw [if_neg fun same => other ⟨q, by simp [isQuantifiedBy, quantifier?, same]⟩]
    exact ⟨_, rfl⟩
  · exact ⟨_, rfl⟩
  · exact ⟨_, rfl⟩

/-- **Merge two quantifiers.** Of two formulas that pass `validate`, `coalesce φ ψ` finds a mismatch
exactly if they are not two quantifiers of one kind. Two quantifiers over `xs` and over `ys` are
refused because a variable of one of them is free in a quantifier or bound inside a body, or they
become *one*, over `mergedVariables xs ys`, with both bodies joined below it. It passes `validate`
too, and says what the two say together. -/
theorem coalesce_merges_or_conflicts {φ ψ : Formula} (left : φ.validate = .ok ())
    (right : ψ.validate = .ok ()) :
    ((∃ found, coalesce φ ψ = .error (.mismatch found)) ↔
      ¬ ∃ q, φ.isQuantifiedBy q = true ∧ ψ.isQuantifiedBy q = true) ∧
    ∀ q xs ys φ' ψ', φ = .quantified q xs φ' → ψ = .quantified q ys ψ' →
      ((∃ conflict, coalesce φ ψ = .error (.scope conflict) ∧ Conflicts q xs ys φ' ψ' conflict) ∨
        ∃ χ, coalesce φ ψ = .ok χ ∧
          (∃ body, χ = .quantified q (mergedVariables xs ys) body ∧
            combine q.distributesOver [mergedBody xs ys φ', mergedBody ys xs ψ'] = .ok body) ∧
          χ.validate = .ok () ∧ χ.Equivalent (.connective q.distributesOver [φ, ψ])) ∧
      ((∀ x ∈ xs ++ ys, (x ∉ φ.freeVariables ∧ x ∉ ψ.freeVariables) ∧
          x ∉ φ'.boundVariables ∧ x ∉ ψ'.boundVariables) → ∃ χ, coalesce φ ψ = .ok χ) := by
  rw [validate_eq_ok_iff] at left right
  refine ⟨⟨?_, mismatch_of_coalesce⟩, ?_⟩
  · rintro ⟨found, mismatch⟩ ⟨q, leftKind, rightKind⟩
    obtain ⟨xs, φ', rfl⟩ := isQuantifiedBy_iff.1 leftKind
    obtain ⟨ys, ψ', rfl⟩ := isQuantifiedBy_iff.1 rightKind
    obtain ⟨conflict, same, -⟩ := conflicts_of_coalesce_eq_error left right mismatch
    cases same
  · rintro q xs ys φ' ψ' rfl rfl
    refine ⟨?_, ?_⟩
    -- The result is one merged quantifier, or the error is a conflict: a mismatch is ruled out.
    · cases result : coalesce (.quantified q xs φ') (.quantified q ys ψ') with
      | error e =>
        obtain ⟨conflict, rfl, conflicts⟩ := conflicts_of_coalesce_eq_error left right result
        exact .inl ⟨conflict, rfl, conflicts⟩
      | ok χ =>
        have merge := coalesced_of_coalesce result
        have leftBinder := (wellFormed_quantified_iff.1 left).1
        have rightBinder := (wellFormed_quantified_iff.1 right).1
        refine .inr ⟨χ, rfl, merge.exists_body leftBinder rightBinder,
          validate_eq_ok_iff.2 (merge.wellFormed left right), ?_⟩
        intro D _ S v
        exact merge.holds leftBinder rightBinder v
    · intro unused
      refine exists_coalesce_of_unused left right ?_ fun x mem => (unused x mem).2
      intro x mem
      simpa only [mem_freeVariables] using (unused x mem).1

/-- `∀(x,y)[R(x,y)]`, a quantifier over two variables. -/
def overTwo : Formula :=
  .quantified .universal ["x", "y"] (.atom ⟨"R", [.var "x", .var "y"]⟩)

/-- `∀(y)[∃(z)[R(y,z)]]`, a quantifier over one of the same variables. -/
def overOne : Formula :=
  .quantified .universal ["y"] (.quantified .existential ["z"] (.atom ⟨"R", [.var "y", .var "z"]⟩))

/-- `∀(x,y)[(R(x,y) & ∃(z)[R(x,z)])]`: the two as one quantifier over the longer list, with `y`
renamed to `x` in the body of the second. -/
def overBoth : Formula :=
  .quantified .universal ["x", "y"] (.connective .and [.atom ⟨"R", [.var "x", .var "y"]⟩,
    .quantified .existential ["z"] (.atom ⟨"R", [.var "x", .var "z"]⟩)])

/-- `coalesce overTwo overOne = .ok overBoth`: two quantifiers that share a variable become one,
which passes `validate` and says what both of them say. -/
theorem coalesce_overTwo_overOne :
    overTwo.validate = .ok () ∧ overOne.validate = .ok () ∧
      coalesce overTwo overOne = .ok overBoth ∧ overBoth.validate = .ok () ∧
        overBoth.Equivalent (.connective .and [overTwo, overOne]) := by
  have left : overTwo.validate = .ok () := by cbv
  have right : overOne.validate = .ok () := by cbv
  obtain ⟨conflictOrMerge, merges⟩ :=
    (coalesce_merges_or_conflicts left right).2 _ _ _ _ _ rfl rfl
  rcases conflictOrMerge with ⟨conflict, refused, -⟩ | ⟨χ, merged, ⟨body, rfl, built⟩, valid, same⟩
  · -- None of the variables is free in a quantifier or bound in a body.
    have leftClosed : overTwo.freeVariables = [] := by cbv
    have rightClosed : overOne.freeVariables = [] := by cbv
    obtain ⟨χ, merged⟩ := merges (by simp [leftClosed, rightClosed])
    rw [refused] at merged
    cases merged
  · -- The longer list is kept, and `y` becomes `x` in the body of the shorter one.
    have renamed : mergedBody ["y"] ["x", "y"]
        (.quantified .existential ["z"] (.atom ⟨"R", [.var "y", .var "z"]⟩)) =
          .quantified .existential ["z"] (.atom ⟨"R", [.var "x", .var "z"]⟩) := by
      simp [mergedBody, Formula.rename, Atom.rename, Term.rename, Renaming.rename,
        Renaming.ofPlaces, Renaming.without, List.lookup_cons]
    rw [renamed] at built
    cases built
    exact ⟨left, right, merged, valid, same⟩

end ClausalForm.Formula
