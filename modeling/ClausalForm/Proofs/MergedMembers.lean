import ClausalForm.Proofs.Merging

/-! # Merging the quantifiers of a connective

`Formula.coalesceMembers` leaves at most one quantifier of each kind among the members of a
connective: those of one kind are coalesced, those of the other kind concatenated.

* **`Formula.placeMerged_perm`**: the members after merging, sorted by their kind.
* **`Formula.rewrites_placeMerged`**: what the members become, put into place.
* **`Formula.placeMerged_of_coalesceMembers`**, **`Formula.merged_of_coalesceMembers`**: all of it,
  for whatever the merge returns.
* **`Formula.exists_coalesceMembers`**: separated members can be merged. -/

namespace ClausalForm.Formula

variable {leaves : Leaves} {q : Quantifier} {op : Connective} {φ ψ χ : Formula}
  {φs ψs χs : List Formula}

/-! ## Merged members put into place -/

variable {merged : Quantifier → Option Formula}

/-- `representatives merged q φs`: the members of the kind `q` after merging. -/
def representatives (merged : Quantifier → Option Formula) (q : Quantifier) (φs : List Formula) :
    List Formula :=
  match merged q with
  | none => φs.filter (isQuantifiedBy q)
  | some χ => if (φs.filter (isQuantifiedBy q)).isEmpty then [] else [χ]

/-- `unquantified φs`: the members that are no quantifiers. -/
def unquantified (φs : List Formula) : List Formula := φs.filter fun φ => !φ.isQuantified

/-- A member of another kind is not represented. -/
theorem representatives_cons_of_not (other : φ.isQuantifiedBy q = false) :
    representatives merged q (φ :: φs) = representatives merged q φs := by
  unfold representatives
  rw [List.filter_cons_of_neg (by simp [other])]

/-- `merged q = none`: a member of a kind that is not merged represents itself. -/
theorem representatives_cons_of_none (kind : φ.isQuantifiedBy q = true)
    (unmerged : merged q = none) :
    representatives merged q (φ :: φs) = φ :: representatives merged q φs := by
  simp only [representatives, unmerged, List.filter_cons_of_pos kind]

/-- `merged q = some χ`: the members of a kind that is merged are represented by one formula. -/
theorem representatives_cons_of_some (kind : φ.isQuantifiedBy q = true) (hχ : merged q = some χ) :
    representatives merged q (φ :: φs) = [χ] := by
  simp [representatives, hχ, List.filter_cons_of_pos kind]

/-- `withoutKind q φs`: without the members of a merged kind nothing represents it. -/
theorem representatives_withoutKind (hχ : merged q = some χ) :
    representatives merged q (withoutKind q φs) = [] := by
  have none : (withoutKind q φs).filter (isQuantifiedBy q) = [] := by
    simp [withoutKind, List.filter_filter]
  simp [representatives, hχ, none]

/-- `withoutKind q φs`: the members of the other kind stay. -/
theorem representatives_withoutKind_of_ne {r : Quantifier} (differ : q ≠ r) :
    representatives merged r (withoutKind q φs) = representatives merged r φs := by
  unfold representatives
  rw [filter_withoutKind differ]

/-- So do those that are no quantifiers. -/
theorem unquantified_withoutKind : unquantified (withoutKind q φs) = unquantified φs := by
  unfold unquantified withoutKind
  rw [List.filter_filter]
  refine List.filter_congr ?_
  intro φ _
  cases φ <;> simp [isQuantified, isQuantifiedBy, quantifier?]

/-- A quantifier is not among them. -/
theorem unquantified_cons_of_kind (kind : φ.quantifier? = some q) :
    unquantified (φ :: φs) = unquantified φs :=
  List.filter_cons_of_neg (by cases φ <;> simp_all [isQuantified, quantifier?])

/-- Any other member is. -/
theorem unquantified_cons_of_none (plain : φ.quantifier? = none) :
    unquantified (φ :: φs) = φ :: unquantified φs :=
  List.filter_cons_of_pos (by cases φ <;> simp_all [isQuantified, quantifier?])

/-- `sorted merged φs`: the members after merging, sorted by their kind. -/
def sorted (merged : Quantifier → Option Formula) (φs : List Formula) : List Formula :=
  representatives merged .universal φs ++
    (representatives merged .existential φs ++ unquantified φs)

/-- `sorted merged (φ :: φs)`: what represents a kind comes before the others of its kind. -/
theorem perm_sorted_cons (here : representatives merged q (φ :: φs) =
      χ :: representatives merged q ψs)
    (other : ∀ r, q ≠ r → representatives merged r (φ :: φs) = representatives merged r ψs)
    (plain : unquantified (φ :: φs) = unquantified ψs) (rest : χs.Perm (sorted merged ψs)) :
    (χ :: χs).Perm (sorted merged (φ :: φs)) := by
  unfold sorted
  rw [plain]
  cases q with
  | universal =>
    rw [here, other .existential (by simp)]
    exact rest.cons χ
  | existential =>
    rw [here, other .universal (by simp)]
    exact (rest.cons χ).trans List.perm_middle.symm

/-- `(placeMerged merged φs).Perm (sorted merged φs)`: after merging there are the quantifiers of
both kinds, and the other members. -/
theorem placeMerged_perm (merged : Quantifier → Option Formula) (φs : List Formula) :
    (placeMerged merged φs).Perm (sorted merged φs) := by
  -- A quantifier of kind `q` belongs to no other kind.
  have apart : ∀ (φ : Formula) q, φ.quantifier? = some q → φ.isQuantifiedBy q = true ∧
      ∀ r, q ≠ r → φ.isQuantifiedBy r = false := fun φ q kind =>
    ⟨by simp [isQuantifiedBy, kind], fun r differ => by simp [isQuantifiedBy, kind, differ]⟩
  fun_induction placeMerged merged φs with
  | case1 =>
    have none : ∀ q, representatives merged q [] = [] := by
      intro q
      unfold representatives
      split <;> rfl
    rw [sorted, none, none]
    exact .refl _
  | case2 φ φs none ih =>
    have other : ∀ q, φ.isQuantifiedBy q = false := by simp [isQuantifiedBy, none]
    rw [sorted, ← List.append_assoc] at ih
    rw [sorted, representatives_cons_of_not (other _), representatives_cons_of_not (other _),
      unquantified_cons_of_none none, ← List.append_assoc]
    exact (ih.cons φ).trans List.perm_middle.symm
  | case3 φ φs q kind unmerged ih =>
    obtain ⟨here, others⟩ := apart φ q kind
    exact perm_sorted_cons (representatives_cons_of_none here unmerged)
      (fun r differ => representatives_cons_of_not (others r differ))
      (unquantified_cons_of_kind kind) ih
  | case4 φ φs q kind χ hχ ih =>
    obtain ⟨here, others⟩ := apart φ q kind
    refine perm_sorted_cons (q := q) ?_ ?_ ?_ ih
    · rw [representatives_cons_of_some here hχ, representatives_withoutKind hχ]
    · intro r differ
      rw [representatives_cons_of_not (others r differ), representatives_withoutKind_of_ne differ]
    · rw [unquantified_cons_of_kind kind, unquantified_withoutKind]

/-- `placeMerged merged φs = φs`: if nothing is merged, the members are left as they are. -/
theorem placeMerged_of_none (unmerged : ∀ q, merged q = none) (φs : List Formula) :
    placeMerged merged φs = φs := by
  fun_induction placeMerged merged φs with
  | case1 => rfl
  | case2 φ φs _ ih => rw [ih]
  | case3 φ φs q _ _ ih => rw [ih]
  | case4 φ φs q _ χ hχ => rw [unmerged] at hχ; cases hχ

/-- `placeMerged merged φs = []`: merging leaves something. -/
theorem placeMerged_eq_nil (none : placeMerged merged φs = []) : φs = [] := by
  cases φs with
  | nil => rfl
  | cons φ φs =>
    rw [placeMerged] at none
    split at none
    · cases none
    · split at none <;> cases none

/-- `ψ ∈ placeMerged merged φs`: the members after merging are some of those before, and what others
became. -/
theorem mem_or_of_mem_placeMerged (mem : ψ ∈ placeMerged merged φs) :
    ψ ∈ φs ∨ ∃ q, merged q = some ψ := by
  fun_induction placeMerged merged φs with
  | case1 => cases mem
  | case2 φ φs _ ih =>
    rcases List.mem_cons.1 mem with rfl | mem
    · exact .inl List.mem_cons_self
    · exact (ih mem).imp_left (List.mem_cons_of_mem _)
  | case3 φ φs q _ _ ih =>
    rcases List.mem_cons.1 mem with rfl | mem
    · exact .inl List.mem_cons_self
    · exact (ih mem).imp_left (List.mem_cons_of_mem _)
  | case4 φ φs q _ χ hχ ih =>
    rcases List.mem_cons.1 mem with rfl | mem
    · exact .inr ⟨q, hχ⟩
    · exact (ih mem).imp_left fun h => List.mem_cons_of_mem _ (List.mem_filter.1 h).1

/-- `MergesEach leaves op φs merged`: what the members of each kind become. They stay if there is at
most one, and otherwise they are replaced by one formula. -/
def MergesEach (leaves : Leaves) (op : Connective) (φs : List Formula)
    (merged : Quantifier → Option Formula) : Prop :=
  ∀ q, merged q = none ∧ (φs.filter (isQuantifiedBy q)).length ≤ 1 ∨
    ∃ χ, merged q = some χ ∧ φs.filter (isQuantifiedBy q) ≠ [] ∧
      Merges leaves op q (φs.filter (isQuantifiedBy q)) χ

/-- `merged q = some χ`: if the members of a kind become one formula, there are some, and it
replaces them. -/
theorem MergesEach.merges (each : MergesEach leaves op φs merged) (hχ : merged q = some χ) :
    φs.filter (isQuantifiedBy q) ≠ [] ∧ Merges leaves op q (φs.filter (isQuantifiedBy q)) χ := by
  rcases each q with ⟨none, -⟩ | ⟨ψ, hψ, some, merges⟩
  · rw [none] at hχ
    cases hχ
  · rw [hψ] at hχ
    cases hχ
    exact ⟨some, merges⟩

/-- `merged q = none`: there is at most one member of a kind that becomes nothing else. -/
theorem MergesEach.single (each : MergesEach leaves op φs merged) (unmerged : merged q = none) :
    (φs.filter (isQuantifiedBy q)).length ≤ 1 := by
  rcases each q with ⟨-, few⟩ | ⟨χ, hχ, -⟩
  · exact few
  · rw [unmerged] at hχ
    cases hχ

/-- `placeMerged merged φs`: the members may be replaced by what they become. -/
theorem rewrites_placeMerged (each : MergesEach leaves op φs merged) :
    Rewrites (.connective op φs) (.connective op (placeMerged merged φs)) := by
  -- Both lists are sorted by kind, and the parts replaced one by one.
  have part : ∀ q, Rewrites (.connective op (representatives (fun _ => none) q φs))
      (.connective op (representatives merged q φs)) := by
    intro q
    rcases each q with ⟨none, -⟩ | ⟨χ, hχ, some, merges⟩
    · simp only [representatives, none]
      exact .refl _
    · simp only [representatives, hχ, List.isEmpty_iff, some, if_false]
      exact merges.rewrites.to_singleton
  have before := placeMerged_perm (fun _ => none) φs
  rw [placeMerged_of_none fun _ => rfl] at before
  exact (Rewrites.perm before).trans <|
    ((part .universal).append ((part .existential).append (.refl _))).trans
      (.perm (placeMerged_perm merged φs).symm)

/-- `(placeMerged merged φs).countP (isQuantifiedBy q) ≤ 1`: after merging there is at most one
quantifier of each kind. -/
theorem countP_placeMerged (each : MergesEach leaves op φs merged) (q : Quantifier) :
    (placeMerged merged φs).countP (isQuantifiedBy q) ≤ 1 := by
  have few : ∀ r, (representatives merged r φs).length ≤ 1 ∧
      ∀ φ ∈ representatives merged r φs, φ.isQuantifiedBy r = true := by
    intro r
    rcases each r with ⟨none, le⟩ | ⟨χ, hχ, some, merges⟩
    · simp only [representatives, none]
      exact ⟨le, fun φ mem => (List.mem_filter.1 mem).2⟩
    · simp only [representatives, hχ, List.isEmpty_iff, some, if_false]
      refine ⟨Nat.le_refl 1, ?_⟩
      intro φ mem
      rw [List.mem_singleton.1 mem]
      exact merges.kind
  -- The quantifiers of kind `q` are found among its own representatives only.
  have own : (representatives merged q φs).countP (isQuantifiedBy q) ≤ 1 :=
    Nat.le_trans List.countP_le_length (few q).1
  have other : ∀ r, r ≠ q → (representatives merged r φs).countP (isQuantifiedBy q) = 0 := by
    intro r differ
    refine List.countP_eq_zero.2 ?_
    intro φ mem
    obtain ⟨xs, ψ, rfl⟩ := isQuantifiedBy_iff.1 ((few r).2 φ mem)
    simpa [isQuantifiedBy, quantifier?] using differ
  have plain : (unquantified φs).countP (isQuantifiedBy q) = 0 := by
    refine List.countP_eq_zero.2 ?_
    intro φ mem
    have := (List.mem_filter.1 mem).2
    cases φ <;> simp_all [isQuantified, isQuantifiedBy, quantifier?]
  rw [(placeMerged_perm merged φs).countP_eq, sorted, List.countP_append, List.countP_append, plain]
  cases q with
  | universal =>
    rw [other .existential (by simp)]
    omega
  | existential =>
    rw [other .universal (by simp)]
    omega

/-- What the members of a kind are replaced by is put into place. -/
theorem mem_placeMerged (each : MergesEach leaves op φs merged) (hχ : merged q = some χ) :
    χ ∈ placeMerged merged φs := by
  have here : χ ∈ representatives merged q φs := by
    simp [representatives, hχ, (each.merges hχ).1]
  rw [(placeMerged_perm merged φs).mem_iff, sorted, List.mem_append, List.mem_append]
  cases q with
  | universal => exact .inl here
  | existential => exact .inr (.inl here)

/-! ## All members -/

/-- `Merged leaves op φs ψs`: what merging the members of a connective leaves. -/
structure Merged (leaves : Leaves) (op : Connective) (φs ψs : List Formula) : Prop where
  rewrites : Rewrites (.connective op φs) (.connective op ψs)
  wellFormed : ∀ ψ ∈ ψs, ψ.WellFormed leaves
  flat : ∀ ψ ∈ ψs, ψ.isConnective op = false
  single : ∀ q, ψs.countP (isQuantifiedBy q) ≤ 1
  movable : (∀ φ ∈ φs, φ.Movable op) → ∀ ψ ∈ ψs, ψ.Movable op

/-- The members put into place are what merging leaves. -/
theorem merged_placeMerged (wellFormed : ∀ φ ∈ φs, φ.WellFormed leaves)
    (flat : ∀ φ ∈ φs, φ.isConnective op = false) (each : MergesEach leaves op φs merged) :
    Merged leaves op φs (placeMerged merged φs) := by
  -- A member that was not there before is what the members of one kind became.
  refine ⟨rewrites_placeMerged each, ?_, ?_, countP_placeMerged each, ?_⟩
  · intro ψ mem
    rcases mem_or_of_mem_placeMerged mem with mem | ⟨q, hq⟩
    · exact wellFormed ψ mem
    · exact (each.merges hq).2.wellFormed
  · intro ψ mem
    rcases mem_or_of_mem_placeMerged mem with mem | ⟨q, hq⟩
    · exact flat ψ mem
    · obtain ⟨xs, θ, rfl⟩ := isQuantifiedBy_iff.1 (each.merges hq).2.kind
      rfl
  · intro movable ψ mem
    rcases mem_or_of_mem_placeMerged mem with mem | ⟨q, hq⟩
    · exact movable ψ mem
    · exact (each.merges hq).2.movable fun φ hφ => movable φ (List.mem_filter.1 hφ).1

/-- `mergedMember op φs q = .ok none`: there are never two quantifiers of a kind to merge if at most
one member is of that kind. -/
theorem mergedMember_of_single (single : (φs.filter (isQuantifiedBy q)).length ≤ 1) :
    mergedMember op φs q = .ok none := by
  unfold mergedMember
  split
  · next members =>
    rw [members] at single
    simp at single
  · rfl

/-- `coalesceMembers op φs`: members of which at most one of each kind is a quantifier are left as
they are. -/
theorem coalesceMembers_of_single
    (single : ∀ q, (φs.filter (isQuantifiedBy q)).length ≤ 1) :
    coalesceMembers op φs = .ok (.connective op φs) := by
  unfold coalesceMembers
  rw [mergedMember_of_single (single _), mergedMember_of_single (single _)]
  rfl

/-- If nothing is merged, a well-formed connective is what its members build. -/
theorem combine_placeMerged (h : (Formula.connective op φs).WellFormed leaves)
    (merged : Quantifier → Option Formula) :
    (if ((merged op.distributing).isNone && (merged op.distributing.dual).isNone) = true then
        .ok (.connective op φs)
      else combine op (placeMerged merged φs)) = combine op (placeMerged merged φs) := by
  split
  · next unmerged =>
    rw [Bool.and_eq_true, Option.isNone_iff_eq_none, Option.isNone_iff_eq_none] at unmerged
    rw [placeMerged_of_none fun q => ?_, h.combine_eq]
    rcases op.distributing.eq_or_eq_dual q with rfl | rfl
    · exact unmerged.1
    · exact unmerged.2
  · rfl

/-- `coalesceMembers op φs = .ok χ`: both kinds are merged, and what they become is put into
place. -/
theorem coalesceMembers_eq_ok_iff (h : (Formula.connective op φs).WellFormed leaves) :
    coalesceMembers op φs = .ok χ ↔ ∃ merged, (∀ q, mergedMember op φs q = .ok (merged q)) ∧
      combine op (placeMerged merged φs) = .ok χ := by
  have differ := op.distributing.dual_ne
  unfold coalesceMembers
  constructor
  · intro merging
    obtain ⟨coalesced, first, merging⟩ := bind_eq_ok_iff.1 merging
    obtain ⟨concatenated, second, merging⟩ := bind_eq_ok_iff.1 merging
    have same := combine_placeMerged h fun q =>
      if q = op.distributing then coalesced else concatenated
    rw [if_pos rfl, if_neg differ] at same
    refine ⟨fun q => if q = op.distributing then coalesced else concatenated, ?_, ?_⟩
    · intro q
      rcases op.distributing.eq_or_eq_dual q with rfl | rfl
      · simp only [if_true, first]
      · simp only [differ, if_false, second]
    · rw [← same]
      exact merging
  · rintro ⟨merged, each, built⟩
    -- The two results are looked up by their kinds.
    have same : (fun q => if q = op.distributing then merged op.distributing
        else merged op.distributing.dual) = merged := by
      funext q
      rcases op.distributing.eq_or_eq_dual q with rfl | rfl
      · rw [if_pos rfl]
      · rw [if_neg differ]
    refine bind_eq_ok_iff.2 ⟨_, each _, bind_eq_ok_iff.2 ⟨_, each _, ?_⟩⟩
    rw [same]
    exact (combine_placeMerged h merged).trans built

/-- `coalesceMembers op φs = .ok χ`: whatever merging the members of a well-formed connective
returns is the connective of the members put into place, or the one quantifier that is left. -/
theorem placeMerged_of_coalesceMembers (wellFormed : (Formula.connective op φs).WellFormed leaves)
    (h : coalesceMembers op φs = .ok χ) : ∃ merged,
      (∀ q, mergedMember op φs q = .ok (merged q)) ∧ MergesEach leaves op φs merged ∧
        (2 ≤ (placeMerged merged φs).length ∧ χ = .connective op (placeMerged merged φs) ∨
          placeMerged merged φs = [χ] ∧ χ.isQuantified = true) := by
  obtain ⟨merged, all, built⟩ := (coalesceMembers_eq_ok_iff wellFormed).1 h
  cases wellFormed with
  | connective two flat members =>
    have each : MergesEach leaves op φs merged := fun q => mergedMember_cases members (all q)
    have left := merged_placeMerged members flat each
    refine ⟨merged, all, each, ?_⟩
    rcases spliced_of_combine built with one | ⟨two, rfl⟩
    · rw [spliced_of_flat left.flat] at one
      refine .inr ⟨one, ?_⟩
      -- One member is left of two or more, so that some were merged.
      by_cases unmerged : ∀ q, merged q = none
      · rw [placeMerged_of_none unmerged] at one
        rw [one] at two
        simp at two
      · obtain ⟨q, some⟩ := not_forall.1 unmerged
        obtain ⟨ψ, hψ⟩ := Option.ne_none_iff_exists'.1 some
        have mem := mem_placeMerged each hψ
        rw [one, List.mem_singleton] at mem
        obtain ⟨xs, body, same⟩ := isQuantifiedBy_iff.1 (each.merges hψ).2.kind
        rw [← mem, same, isQuantified]
    · rw [spliced_of_flat left.flat] at two ⊢
      exact .inl ⟨two, rfl⟩

/-- Whatever it returns, what is left says what the members said. -/
theorem merged_of_coalesceMembers (wellFormed : (Formula.connective op φs).WellFormed leaves)
    (h : coalesceMembers op φs = .ok χ) : ∃ ψs, Merged leaves op φs ψs ∧
      (2 ≤ ψs.length ∧ χ = .connective op ψs ∨ ψs = [χ] ∧ χ.isQuantified = true) := by
  obtain ⟨merged, -, each, shape⟩ := placeMerged_of_coalesceMembers wellFormed h
  cases wellFormed with
  | connective _ flat members => exact ⟨_, merged_placeMerged members flat each, shape⟩

/-- `coalesceMembers op φs`: the members of a separated well-formed connective can be merged. -/
theorem exists_coalesceMembers (wellFormed : (Formula.connective op φs).WellFormed leaves)
    (separated : (Formula.connective op φs).Separated) : ∃ χ, coalesceMembers op φs = .ok χ := by
  have possible := wellFormed
  cases possible with
  | connective two flat members =>
    choose merged all using fun q => exists_mergedMember members separated q
    have each : MergesEach leaves op φs merged := fun q => mergedMember_cases members (all q)
    have left := merged_placeMerged members flat each
    -- A connective has members, and they are not all merged away.
    have some : placeMerged merged φs ≠ [] := by
      intro none
      rw [placeMerged_eq_nil none] at two
      simp at two
    obtain ⟨χ, built⟩ := exists_combine op some left.wellFormed
    exact ⟨χ, (coalesceMembers_eq_ok_iff wellFormed).2 ⟨merged, all, built⟩⟩

end ClausalForm.Formula
