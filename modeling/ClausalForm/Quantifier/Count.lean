import ClausalForm.Computation
import ClausalForm.Quantifier.Merge

/-! # The number of quantifiers

Merging never adds a quantifier to a formula. Hoisting ends for this reason: it takes a quantifier
off each formula that it goes on with.

* **`Formula.quantifierCount`**, **`Formula.totalCount`**: the number of quantifiers in a formula
  and in a list of formulas.
* **`Formula.quantifierCount_coalesce`**, **`Formula.quantifierCount_concatenate`**: two or more
  quantifiers merged into one.
* **`Formula.quantifierCount_coalesceMembers`**: the members of a connective merged. -/

namespace ClausalForm.Formula

mutual

/-- `φ.quantifierCount`: the number of quantifiers in a formula. It is what `hoist` makes
smaller. -/
def quantifierCount : Formula → Nat
  | .atom _ => 0
  | .not φ => φ.quantifierCount
  | .connective _ φs => totalCount φs
  | .quantified _ _ φ => φ.quantifierCount + 1

/-- `totalCount φs`: the number of quantifiers in a list of formulas. -/
def totalCount : List Formula → Nat
  | [] => 0
  | φ :: φs => φ.quantifierCount + totalCount φs

end

@[simp] theorem totalCount_nil : totalCount [] = 0 := rfl

@[simp] theorem totalCount_cons (φ : Formula) (φs : List Formula) :
    totalCount (φ :: φs) = φ.quantifierCount + totalCount φs := rfl

@[simp] theorem totalCount_append (φs ψs : List Formula) :
    totalCount (φs ++ ψs) = totalCount φs + totalCount ψs := by
  induction φs with
  | nil => simp
  | cons φ φs ih => simp only [List.cons_append, totalCount_cons, ih]; omega

@[simp] theorem quantifierCount_connective (op : Connective) (φs : List Formula) :
    (Formula.connective op φs).quantifierCount = totalCount φs := rfl

/-- `totalCount φs = 0`: a list has no quantifiers exactly if its formulas have none. -/
theorem totalCount_eq_zero_iff {φs : List Formula} :
    totalCount φs = 0 ↔ ∀ φ ∈ φs, φ.quantifierCount = 0 := by
  induction φs with
  | nil => simp
  | cons φ φs ih => rw [totalCount_cons, Nat.add_eq_zero_iff, ih, List.forall_mem_cons]

/-- Lists of formulas with the same numbers of quantifiers have the same number together. -/
theorem totalCount_map {f : Formula → Formula} {φs : List Formula}
    (same : ∀ φ ∈ φs, (f φ).quantifierCount = φ.quantifierCount) :
    totalCount (φs.map f) = totalCount φs := by
  induction φs with
  | nil => rfl
  | cons φ φs ih =>
    simp only [List.map_cons, totalCount_cons, same φ List.mem_cons_self,
      ih fun ψ mem => same ψ (List.mem_cons_of_mem _ mem)]

/-- `totalCount (φ.membersOf op)`: the members of a formula hold all of its quantifiers. -/
theorem totalCount_membersOf (op : Connective) (φ : Formula) :
    totalCount (φ.membersOf op) = φ.quantifierCount := by
  unfold membersOf
  split
  · split <;> simp
  · simp

/-- `totalCount (spliced op φs)`: splicing keeps the number of quantifiers. -/
theorem totalCount_spliced (op : Connective) (φs : List Formula) :
    totalCount (spliced op φs) = totalCount φs := by
  induction φs with
  | nil => rfl
  | cons φ φs ih =>
    simp only [spliced, List.flatMap_cons, totalCount_append, totalCount_membersOf,
      totalCount_cons] at ih ⊢
    omega

/-- `combine op φs = .ok ψ`: a connective that was built has the quantifiers of what it was built
from. -/
theorem quantifierCount_combine {op : Connective} {φs : List Formula} {ψ : Formula}
    (h : combine op φs = .ok ψ) : ψ.quantifierCount = totalCount φs := by
  rw [← totalCount_spliced op φs]
  rcases spliced_of_combine h with one | ⟨-, rfl⟩
  · simp [one]
  · simp

/-- `quantify q xs φ` has at most one quantifier more than `φ`. -/
theorem quantifierCount_quantify (q : Quantifier) (xs : List String) (φ : Formula) :
    (quantify q xs φ).quantifierCount ≤ φ.quantifierCount + 1 := by
  unfold quantify
  split <;> simp [quantifierCount]

/-- `φ.rename m` has as many quantifiers as `φ`. -/
@[simp] theorem quantifierCount_rename (m : Renaming) (φ : Formula) :
    (φ.rename m).quantifierCount = φ.quantifierCount := by
  induction φ using induction generalizing m with
  | atom a => simp [rename, quantifierCount]
  | not φ ih => simp [rename, quantifierCount, ih]
  | connective op φs ih =>
    simpa only [rename, quantifierCount_connective] using totalCount_map fun φ mem => ih φ mem m
  | quantified q xs φ ih => simp [rename, quantifierCount, ih]

/-- `φ.renameOnto xs ys` has as many quantifiers as `φ`. -/
theorem quantifierCount_renameOnto {φ ψ : Formula} {xs ys : List String}
    (h : φ.renameOnto xs ys = .ok ψ) : ψ.quantifierCount = φ.quantifierCount := by
  unfold renameOnto at h
  split at h
  · cases h
  · rw [← Except.ok.inj h, quantifierCount_rename]

/-- `align xs ys φ ψ` keeps the number of quantifiers of both bodies. -/
theorem quantifierCount_align {xs ys zs : List String} {φ ψ φ' ψ' : Formula}
    (h : align xs ys φ ψ = .ok (zs, φ', ψ')) :
    φ'.quantifierCount = φ.quantifierCount ∧ ψ'.quantifierCount = ψ.quantifierCount := by
  unfold align at h
  split at h
  · obtain ⟨χ, renamed, same⟩ := bind_eq_ok_iff.1 h
    cases same
    exact ⟨quantifierCount_renameOnto renamed, rfl⟩
  · split at h
    · obtain ⟨χ, renamed, same⟩ := bind_eq_ok_iff.1 h
      cases same
      exact ⟨rfl, quantifierCount_renameOnto renamed⟩
    · cases h
      exact ⟨rfl, rfl⟩

/-- `coalesce φ ψ` has no more quantifiers than the two have together. -/
theorem quantifierCount_coalesce {φ ψ χ : Formula} (h : coalesce φ ψ = .ok χ) :
    χ.quantifierCount ≤ φ.quantifierCount + ψ.quantifierCount := by
  unfold coalesce at h
  split at h
  · next q xs φ' r ys ψ' =>
    split at h
    · obtain ⟨⟨zs, φ'', ψ''⟩, aligned, rest⟩ := bind_eq_ok_iff.1 h
      obtain ⟨left, right⟩ := quantifierCount_align aligned
      dsimp only at rest
      split at rest
      · cases rest
      · obtain ⟨body, built, same⟩ := bind_eq_ok_iff.1 rest
        -- The new quantifier takes the place of two.
        have total := quantifierCount_combine built
        have most := quantifierCount_quantify q zs body
        rw [Except.ok.inj same] at most
        simp only [totalCount_cons, totalCount_nil] at total
        simp only [quantifierCount]
        omega
    · cases h
  · cases h
  · cases h

/-- `φs.foldlM coalesce φ`: coalescing one quantifier after another adds none. -/
theorem quantifierCount_foldlM_coalesce {φs : List Formula} {φ χ : Formula}
    (h : φs.foldlM coalesce φ = .ok χ) : χ.quantifierCount ≤ φ.quantifierCount + totalCount φs := by
  induction φs generalizing φ with
  | nil =>
    rw [← Except.ok.inj h]
    exact Nat.le_refl _
  | cons ψ ψs ih =>
    rw [List.foldlM_cons] at h
    obtain ⟨φ', first, rest⟩ := bind_eq_ok_iff.1 h
    have := quantifierCount_coalesce first
    have := ih rest
    rw [totalCount_cons]
    omega

/-- The bodies of quantifiers have one quantifier less each. -/
theorem totalCount_bodies {q : Quantifier} {φs : List Formula}
    (all : ∀ φ ∈ φs, φ.isQuantifiedBy q = true) :
    totalCount (φs.filterMap body?) + φs.length = totalCount φs := by
  induction φs with
  | nil => rfl
  | cons φ φs ih =>
    have first := all φ List.mem_cons_self
    have rest := ih fun ψ hψ => all ψ (List.mem_cons_of_mem _ hψ)
    cases φ with
    | quantified r xs φ => simp [body?, quantifierCount] at rest ⊢; omega
    | atom => simp [isQuantifiedBy, quantifier?] at first
    | not => simp [isQuantifiedBy, quantifier?] at first
    | connective => simp [isQuantifiedBy, quantifier?] at first

/-- `concatenate q op φs` has no more quantifiers than the formulas have together. -/
theorem quantifierCount_concatenate {q : Quantifier} {op : Connective} {φs : List Formula}
    {χ : Formula} (all : ∀ φ ∈ φs, φ.isQuantifiedBy q = true) (some : φs ≠ [])
    (h : concatenate q op φs = .ok χ) : χ.quantifierCount ≤ totalCount φs := by
  unfold concatenate at h
  dsimp only at h
  split at h
  · cases h
  · split at h
    · cases h
    · obtain ⟨body, built, rfl⟩ := map_eq_ok_iff.1 h
      have := quantifierCount_combine built
      have := totalCount_bodies all
      have := quantifierCount_quantify q (φs.flatMap fun φ => φ.boundHere?.getD []) body
      have := List.length_pos_iff.2 some
      omega

/-- `mergedMember op φs q`: what the members of one kind are merged into has no more quantifiers
than they have. -/
theorem quantifierCount_mergedMember {op : Connective} {φs : List Formula} {q : Quantifier}
    {χ : Formula} (h : mergedMember op φs q = .ok (some χ)) :
    χ.quantifierCount ≤ totalCount (φs.filter (isQuantifiedBy q)) := by
  unfold mergedMember at h
  split at h
  · next φ ψ rest members =>
    rw [members]
    split at h
    · obtain ⟨χ', folded, same⟩ := map_eq_ok_iff.1 h
      exact Option.some.inj same ▸ quantifierCount_foldlM_coalesce folded
    · obtain ⟨χ', concatenated, same⟩ := map_eq_ok_iff.1 h
      have kind : ∀ θ ∈ φ :: ψ :: rest, θ.isQuantifiedBy q = true := by
        rw [← members]
        exact fun θ mem => (List.mem_filter.1 mem).2
      exact Option.some.inj same ▸
        quantifierCount_concatenate kind (List.cons_ne_nil _ _) concatenated
  · cases h

/-- Formulas sorted by a test keep their number of quantifiers. -/
theorem totalCount_filter_add (p : Formula → Bool) (φs : List Formula) :
    totalCount (φs.filter p) + totalCount (φs.filter fun φ => !p φ) = totalCount φs := by
  induction φs with
  | nil => rfl
  | cons φ φs ih => cases h : p φ <;> simp [h] <;> omega

/-- `withoutKind q φs` keeps the quantifiers of the other kind. -/
theorem filter_withoutKind {q r : Quantifier} (differ : q ≠ r) (φs : List Formula) :
    (withoutKind q φs).filter (isQuantifiedBy r) = φs.filter (isQuantifiedBy r) := by
  rw [withoutKind, List.filter_filter]
  refine List.filter_congr fun φ _ => ?_
  cases h : φ.quantifier? with
  | none => simp [isQuantifiedBy, h]
  | some q' =>
    by_cases same : q' = r
    · simp [isQuantifiedBy, h, same, differ.symm]
    · simp [isQuantifiedBy, h, same]

/-- `placeMerged merged φs` has no more quantifiers than `φs`, if merging adds none. -/
theorem totalCount_placeMerged {merged : Quantifier → Option Formula} {φs : List Formula}
    (le : ∀ q ψ, merged q = some ψ → (∃ φ ∈ φs, φ.isQuantifiedBy q = true) →
      ψ.quantifierCount ≤ totalCount (φs.filter (isQuantifiedBy q))) :
    totalCount (placeMerged merged φs) ≤ totalCount φs := by
  fun_induction placeMerged merged φs with
  | case1 => simp
  | case2 φ φs none ih =>
    -- A member that is no quantifier stays.
    have : totalCount (placeMerged merged φs) ≤ totalCount φs := by
      refine ih fun q ψ hψ ⟨χ, hχ, kind⟩ => ?_
      have := le q ψ hψ ⟨χ, List.mem_cons_of_mem _ hχ, kind⟩
      rwa [List.filter_cons_of_neg (by simp [isQuantifiedBy, none])] at this
    simp
    omega
  | case3 φ φs q some unmerged ih =>
    -- Nothing is merged of its kind, so that it stays too.
    have : totalCount (placeMerged merged φs) ≤ totalCount φs := by
      refine ih fun r ψ hψ ⟨χ, hχ, kind⟩ => ?_
      have := le r ψ hψ ⟨χ, List.mem_cons_of_mem _ hχ, kind⟩
      rwa [List.filter_cons_of_neg] at this
      intro same
      simp only [isQuantifiedBy, some, Option.some.injEq, decide_eq_true_eq] at same
      simp [← same, unmerged] at hψ
    simp
    omega
  | case4 φ φs q kind ψ hψ ih =>
    -- The merge replaces all members of its kind, and counts no more than these together.
    have here : φ.isQuantifiedBy q = true := by simp [isQuantifiedBy, kind]
    have bound := le q ψ hψ ⟨φ, List.mem_cons_self, here⟩
    have : totalCount (placeMerged merged (withoutKind q φs)) ≤ totalCount (withoutKind q φs) := by
      refine ih fun r χ hχ ⟨χ', hχ', kind'⟩ => ?_
      obtain ⟨mem, other⟩ := List.mem_filter.1 hχ'
      have differ : q ≠ r := by
        rintro rfl
        simp [kind'] at other
      have := le r χ hχ ⟨χ', List.mem_cons_of_mem _ mem, kind'⟩
      rw [List.filter_cons_of_neg (by simpa [isQuantifiedBy, kind] using differ)] at this
      rwa [filter_withoutKind differ]
    rw [withoutKind] at this
    have := totalCount_filter_add (isQuantifiedBy q) φs
    rw [List.filter_cons_of_pos here, totalCount_cons] at bound
    rw [withoutKind, totalCount_cons, totalCount_cons]
    omega

/-- `coalesceMembers op φs` has no more quantifiers than the members have together. -/
theorem quantifierCount_coalesceMembers {op : Connective} {φs : List Formula} {ψ : Formula}
    (h : coalesceMembers op φs = .ok ψ) : ψ.quantifierCount ≤ totalCount φs := by
  obtain ⟨coalesced, first, rest⟩ := bind_eq_ok_iff.1 h
  obtain ⟨concatenated, second, last⟩ := bind_eq_ok_iff.1 rest
  split at last
  · rw [← Except.ok.inj last]
    exact Nat.le_refl _
  · rw [quantifierCount_combine last]
    refine totalCount_placeMerged fun q χ hχ _ => ?_
    split at hχ
    · next same =>
      subst same hχ
      exact quantifierCount_mergedMember first
    · next differ =>
      -- There are two kinds only.
      have : q = op.distributing.dual := by
        cases op <;> cases q <;> simp_all [Connective.distributing, Quantifier.dual]
      subst this hχ
      exact quantifierCount_mergedMember second

end ClausalForm.Formula
