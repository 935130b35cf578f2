import ClausalForm.Proofs.MergedMembers
import ClausalForm.Quantifier.Hoist

/-! # Taking quantifiers out of a connective

`Formula.rescope` takes at most two quantifiers out of a connective, goes on with what is left, and
puts them in front of the result. `Formula.TakesOut` is the first part of it on its own.

* **`Formula.rescope_eq_ok_iff`**: all that moving quantifiers out can return.
* **`Formula.TakesOut.sound`**: quantifiers may be taken out, if the inner one of two binds no
  variable that is free in the body of the outer one.
* **`Formula.exists_takesOut`**: they can be taken out of what merging leaves of separated
  members. -/

namespace ClausalForm.Formula

variable {leaves : Leaves} {parent : Option Scope} {scope : Scope} {op : Connective}
  {φ ψ χ r : Formula} {φs before between after last : List Formula} {m n : QuantifiedMember}

/-! ## Looking for quantifiers -/

/-- `findQuantifier φs = none`: no quantifier is found exactly if there is none. -/
theorem findQuantifier_eq_none_iff :
    findQuantifier φs = none ↔ ∀ φ ∈ φs, φ.isQuantified = false := by
  fun_induction findQuantifier φs with
  | case1 => simp
  | case2 q xs φ φs => simp [isQuantified]
  | case3 φ φs other ih =>
    have plain : φ.isQuantified = false := by
      cases φ with
      | quantified q xs φ => exact absurd rfl (other q xs φ)
      | _ => rfl
    rw [Option.map_eq_none_iff, ih, List.forall_mem_cons]
    exact ⟨fun h => ⟨plain, h⟩, fun h => h.2⟩

/-- `findQuantifier φs = some (before, m, after)`: the quantifier that is found is the first one. -/
theorem findQuantifier_eq_some (h : findQuantifier φs = some (before, m, after)) :
    φs = before ++ m.toFormula :: after ∧ ∀ φ ∈ before, φ.isQuantified = false := by
  fun_induction findQuantifier φs generalizing before with
  | case1 => cases h
  | case2 q xs φ φs =>
    cases h
    exact ⟨rfl, List.forall_mem_nil _⟩
  | case3 φ φs other ih =>
    obtain ⟨⟨before', m', after'⟩, found, same⟩ := Option.map_eq_some_iff.1 h
    cases same
    obtain ⟨rfl, plain⟩ := ih found
    -- The first member is passed over only if it is no quantifier.
    have first : φ.isQuantified = false := by
      cases φ with
      | quantified q xs φ => exact absurd rfl (other q xs φ)
      | _ => rfl
    exact ⟨rfl, List.forall_mem_cons.2 ⟨first, plain⟩⟩

/-- `checkSiblings m siblings = .ok ()`: the siblings are in order exactly if no variable of the
quantifier is free in one of them. -/
theorem checkSiblings_eq_ok_iff {siblings : List Formula} :
    checkSiblings m siblings = .ok () ↔ ∀ φ ∈ siblings, ∀ x ∈ φ.freeOccurrences, x ∉ m.bound := by
  unfold checkSiblings
  induction siblings with
  | nil => simp [pure, Except.pure]
  | cons φ φs ih =>
    rw [List.forM, bind_eq_ok_iff, List.forall_mem_cons, ← ih, ← captured?_eq_none_iff]
    cases captured? m.bound φ <;> simp

/-- `m.toFormula.WellFormed leaves`: a well-formed member binds what may be bound, and has a
well-formed body. -/
theorem wellFormed_toFormula_iff : m.toFormula.WellFormed leaves ↔
    IsBinder m.bound ∧ m.body.WellFormed leaves := wellFormed_quantified_iff

section Bodies

variable {p r : Formula → Prop} (plain : ∀ φ, φ.isQuantified = false → p φ → r φ)
  (body : ∀ m : QuantifiedMember, p m.toFormula → r m.body)

include plain body

/-- `before ++ m.body :: after`: the only quantifier replaced by its body. -/
theorem forall_mem_body (found : findQuantifier φs = some (before, m, after))
    (only : findQuantifier after = none) (all : ∀ φ ∈ φs, p φ) :
    ∀ φ ∈ before ++ m.body :: after, r φ := by
  obtain ⟨rfl, front⟩ := findQuantifier_eq_some found
  have back := findQuantifier_eq_none_iff.1 only
  simp only [List.forall_mem_append, List.forall_mem_cons] at all ⊢
  exact ⟨fun φ mem => plain φ (front φ mem) (all.1 φ mem), body m all.2.1,
    fun φ mem => plain φ (back φ mem) (all.2.2 φ mem)⟩

/-- `before ++ m.body :: between ++ n.body :: last`: the only two quantifiers replaced by their
bodies. -/
theorem forall_mem_bodies (found : findQuantifier φs = some (before, m, after))
    (next : findQuantifier after = some (between, n, last))
    (only : last.any isQuantified = false) (all : ∀ φ ∈ φs, p φ) :
    ∀ φ ∈ before ++ m.body :: between ++ n.body :: last, r φ := by
  obtain ⟨rfl, front⟩ := findQuantifier_eq_some found
  obtain ⟨rfl, middle⟩ := findQuantifier_eq_some next
  have back : ∀ φ ∈ last, φ.isQuantified = false := by simpa using only
  simp only [List.forall_mem_append, List.forall_mem_cons] at all ⊢
  obtain ⟨inFront, here, inMiddle, there, inBack⟩ := all
  exact ⟨⟨fun φ mem => plain φ (front φ mem) (inFront φ mem), body m here,
    fun φ mem => plain φ (middle φ mem) (inMiddle φ mem)⟩, body n there,
    fun φ mem => plain φ (back φ mem) (inBack φ mem)⟩

end Bodies

/-! ## What is taken out -/

/-- `TakesOut parent op φs outer inner ψ`: the quantifiers that are taken out of a connective at
once, the outer one, if there are two, and the inner one, with what is left. It is the only one, or
one of each kind in the order that the enclosing scope asks for. -/
inductive TakesOut (parent : Option Scope) (op : Connective) (φs : List Formula) :
    Option QuantifiedMember → QuantifiedMember → Formula → Prop
  | one {before after : List Formula} {m : QuantifiedMember} {ψ : Formula}
      (found : findQuantifier φs = some (before, m, after)) (only : findQuantifier after = none)
      (unused : checkSiblings m (before ++ after) = .ok ())
      (built : combine op (before ++ m.body :: after) = .ok ψ) :
      TakesOut parent op φs none m ψ
  | two {scope : Scope} {before between last after : List Formula}
      {m n outer inner : QuantifiedMember} {ψ : Formula} (enclosed : parent = some scope)
      (found : findQuantifier φs = some (before, m, after))
      (next : findQuantifier after = some (between, n, last))
      (differ : m.quantifier ≠ n.quantifier) (only : last.any isQuantified = false)
      (unused : checkSiblings m (before ++ between ++ n.toFormula :: last) = .ok ())
      (nextUnused : checkSiblings n (before ++ m.toFormula :: between ++ last) = .ok ())
      (order : (if m.quantifier = scope.dominant then (m, n) else (n, m)) = (outer, inner))
      (built : combine op (before ++ m.body :: between ++ n.body :: last) = .ok ψ) :
      TakesOut parent op φs (some outer) inner ψ

/-- `m.over φ`: a formula under the quantifier of a member. -/
def QuantifiedMember.over (m : QuantifiedMember) (φ : Formula) : Formula :=
  quantify m.quantifier m.bound φ

/-- `underBoth outer inner φ`: a formula under two quantifiers, the outer of which may be
missing. -/
def underBoth (outer : Option QuantifiedMember) (inner : QuantifiedMember) (φ : Formula) :
    Formula :=
  match outer with
  | none => inner.over φ
  | some m => m.over (inner.over φ)

/-- `rescope parent (connective op φs)` is the connective, if there are no quantifiers among its
members. -/
theorem rescope_of_none (none : findQuantifier φs = none) :
    rescope parent (.connective op φs) = .ok (.connective op φs) := by
  rw [rescope]
  split
  · rfl
  · next found =>
    rw [none] at found
    cases found

/-- `rescope parent (connective op φs) = .ok r`: the only quantifier is moved out, if no sibling
objects. -/
theorem rescope_of_one (found : findQuantifier φs = some (before, m, after))
    (only : findQuantifier after = none) : rescope parent (.connective op φs) = .ok r ↔
      checkSiblings m (before ++ after) = .ok () ∧
        ∃ ψ ψ', combine op (before ++ m.body :: after) = .ok ψ ∧
          hoist (some m.quantifier.scope) ψ = .ok ψ' ∧ r = (m.over ψ').simplify := by
  rw [rescope]
  split
  · next none =>
    rw [none] at found
    cases found
  · next found' =>
    cases found.symm.trans found'
    split
    · rw [checked_eq_ok_iff]
      refine and_congr_right ?_
      intro _
      split
      · next e failed => simp [failed]
      · next ψ built =>
        rw [bind_eq_ok_iff]
        simp [built, pure, Except.pure, QuantifiedMember.over, eq_comm]
    · next next =>
      rw [only] at next
      cases next

/-- `rescope parent (connective op φs) = .ok r`: the first two quantifiers are moved out only if
they are of different kinds and the only ones, and there is an enclosing scope. -/
theorem two_of_rescope (found : findQuantifier φs = some (before, m, after))
    (next : findQuantifier after = some (between, n, last))
    (h : rescope parent (.connective op φs) = .ok r) :
    m.quantifier ≠ n.quantifier ∧ last.any isQuantified = false ∧ ∃ scope, parent = some scope := by
  rw [rescope] at h
  split at h
  · next none =>
    rw [none] at found
    cases found
  · next found' =>
    cases found.symm.trans found'
    split at h
    · next none =>
      rw [none] at next
      cases next
    · next next' =>
      cases next.symm.trans next'
      split at h
      · next kinds =>
        -- Without an enclosing scope the order is ambiguous.
        refine ⟨kinds.1, by simpa using kinds.2, ?_⟩
        cases parent with
        | none => cases h
        | some scope => exact ⟨scope, rfl⟩
      · cases h

/-- `rescope (some scope) (connective op φs) = .ok r`: two quantifiers of different kinds are moved
out together, in the order that the enclosing scope asks for, if no sibling objects. -/
theorem rescope_of_two {scope : Scope} {outer inner : QuantifiedMember}
    (found : findQuantifier φs = some (before, m, after))
    (next : findQuantifier after = some (between, n, last))
    (differ : m.quantifier ≠ n.quantifier) (only : last.any isQuantified = false)
    (order : (if m.quantifier = scope.dominant then (m, n) else (n, m)) = (outer, inner)) :
    rescope (some scope) (.connective op φs) = .ok r ↔
      checkSiblings m (before ++ between ++ n.toFormula :: last) = .ok () ∧
        checkSiblings n (before ++ m.toFormula :: between ++ last) = .ok () ∧
          ∃ ψ ψ', combine op (before ++ m.body :: between ++ n.body :: last) = .ok ψ ∧
            hoist (some inner.quantifier.scope) ψ = .ok ψ' ∧
              r = (outer.over (inner.over ψ')).simplify := by
  rw [rescope]
  split
  · next none =>
    rw [none] at found
    cases found
  · next found' =>
    cases found.symm.trans found'
    split
    · next none =>
      rw [none] at next
      cases next
    · next next' =>
      cases next.symm.trans next'
      rw [if_pos ⟨differ, by rw [only]; rfl⟩]
      -- Both quantifiers are checked, each against the other one as it stands.
      dsimp only
      rw [checked_eq_ok_iff, checked_eq_ok_iff, order]
      refine and_congr_right fun _ => and_congr_right fun _ => ?_
      split
      · next e failed =>
        refine iff_of_false (by simp) ?_
        rintro ⟨ψ, _, built, _⟩
        rw [failed] at built
        cases built
      · next ψ built =>
        rw [bind_eq_ok_iff, built]
        simp [pure, Except.pure, QuantifiedMember.over, eq_comm]

/-- `rescope parent (connective op φs) = .ok r`: all that moving the quantifiers out of a connective
can return. It is the connective itself if there are none, or what is left, with its own quantifiers
moved out, under those that were taken out. -/
theorem rescope_eq_ok_iff : rescope parent (.connective op φs) = .ok r ↔
    findQuantifier φs = none ∧ r = .connective op φs ∨
      ∃ outer inner ψ ψ', TakesOut parent op φs outer inner ψ ∧
        hoist (some inner.quantifier.scope) ψ = .ok ψ' ∧
          r = (underBoth outer inner ψ').simplify := by
  constructor
  · intro h
    rcases found : findQuantifier φs with _ | ⟨before, m, after⟩
    · rw [rescope_of_none found] at h
      exact .inl ⟨rfl, (Except.ok.inj h).symm⟩
    refine .inr ?_
    rcases next : findQuantifier after with _ | ⟨between, n, last⟩
    · obtain ⟨unused, ψ, ψ', built, rest, rfl⟩ := (rescope_of_one found next).1 h
      exact ⟨none, m, ψ, ψ', .one found next unused built, rest, rfl⟩
    · obtain ⟨differ, only, scope, rfl⟩ := two_of_rescope found next h
      -- The pair in the order in which it is moved out.
      obtain ⟨⟨outer, inner⟩, order⟩ :
        ∃ p, (if m.quantifier = scope.dominant then (m, n) else (n, m)) = p := ⟨_, rfl⟩
      obtain ⟨unused, nextUnused, ψ, ψ', built, rest, rfl⟩ :=
        (rescope_of_two found next differ only order).1 h
      exact ⟨some outer, inner, ψ, ψ',
        .two rfl found next differ only unused nextUnused order built, rest, rfl⟩
  · rintro (⟨none, rfl⟩ | ⟨outer, inner, ψ, ψ', taken, rest, rfl⟩)
    · exact rescope_of_none none
    · cases taken with
      | one found only unused built =>
        exact (rescope_of_one found only).2 ⟨unused, ψ, ψ', built, rest, rfl⟩
      | two enclosed found next differ only unused nextUnused order built =>
        rw [enclosed]
        exact (rescope_of_two found next differ only order).2
          ⟨unused, nextUnused, ψ, ψ', built, rest, rfl⟩

/-! ## What taking out does -/

/-- `m.over φ`: a quantifier that may be bound stands over a formula as it is. -/
theorem QuantifiedMember.over_eq (binder : IsBinder m.bound) (φ : Formula) :
    m.over φ = .quantified m.quantifier m.bound φ := quantify_of_isBinder binder

/-- `before ++ m.toFormula :: after`: a member moved over its siblings after the check. -/
theorem rewrites_pulled
    (unused : ∀ φ ∈ before ++ after, ∀ x ∈ φ.freeOccurrences, x ∉ m.bound) :
    Rewrites (.connective op (before ++ m.toFormula :: after))
      (.quantified m.quantifier m.bound (.connective op (before ++ m.body :: after))) :=
  .pull unused

/-- Two members moved over their siblings, the first one over the second. -/
theorem rewrites_pulled_left
    (unused : ∀ φ ∈ before ++ (between ++ n.toFormula :: last), ∀ x ∈ φ.freeOccurrences,
      x ∉ m.bound)
    (nextUnused : ∀ φ ∈ before ++ m.body :: between ++ last, ∀ x ∈ φ.freeOccurrences, x ∉ n.bound) :
    Rewrites (.connective op (before ++ m.toFormula :: (between ++ n.toFormula :: last)))
      (.quantified m.quantifier m.bound (.quantified n.quantifier n.bound
        (.connective op (before ++ m.body :: between ++ n.body :: last)))) := by
  refine (rewrites_pulled unused).trans (Rewrites.quantified ?_)
  rw [← List.cons_append, ← List.append_assoc]
  exact rewrites_pulled nextUnused

/-- Two members moved over their siblings, the second one over the first. -/
theorem rewrites_pulled_right
    (unused : ∀ φ ∈ before ++ m.toFormula :: between ++ last, ∀ x ∈ φ.freeOccurrences, x ∉ n.bound)
    (nextUnused : ∀ φ ∈ before ++ (between ++ n.body :: last), ∀ x ∈ φ.freeOccurrences,
      x ∉ m.bound) :
    Rewrites (.connective op (before ++ m.toFormula :: (between ++ n.toFormula :: last)))
      (.quantified n.quantifier n.bound (.quantified m.quantifier m.bound
        (.connective op (before ++ m.body :: between ++ n.body :: last)))) := by
  have first : Rewrites (.connective op ((before ++ m.toFormula :: between) ++ n.toFormula :: last))
      (.quantified n.quantifier n.bound
        (.connective op ((before ++ m.toFormula :: between) ++ n.body :: last))) :=
    rewrites_pulled unused
  rw [List.append_assoc, List.cons_append, List.append_assoc, List.cons_append] at first
  refine first.trans (Rewrites.quantified ?_)
  rw [List.append_assoc, List.cons_append]
  exact rewrites_pulled nextUnused

/-- `ψ.quantifierCount < totalCount φs`: what is left has fewer quantifiers. -/
theorem TakesOut.quantifierCount_lt {outer : Option QuantifiedMember} {inner : QuantifiedMember}
    (h : TakesOut parent op φs outer inner ψ) : ψ.quantifierCount < totalCount φs := by
  cases h with
  | one found only unused built =>
    have less := totalCount_findQuantifier found
    rw [quantifierCount_combine built, totalCount_append, totalCount_cons]
    omega
  | two enclosed found next differ only unused nextUnused order built =>
    have less := totalCount_findQuantifier found
    have lessNext := totalCount_findQuantifier next
    rw [quantifierCount_combine built]
    simp only [totalCount_append, totalCount_cons]
    omega

/-- What is taken out, and what is left, of well-formed members. -/
structure TakesOut.Sound (leaves : Leaves) (op : Connective) (φs : List Formula)
    (outer : Option QuantifiedMember) (inner : QuantifiedMember) (ψ : Formula) : Prop where
  outerBinder : ∀ m ∈ outer, IsBinder m.bound
  innerBinder : IsBinder inner.bound
  wellFormed : ψ.WellFormed leaves
  rewrites : (∀ m ∈ outer, ∀ x ∈ inner.bound, x ∉ m.body.freeOccurrences) →
    Rewrites (.connective op φs) (underBoth outer inner ψ)

/-- `combine op ψs = .ok ψ`: what is left is built from the siblings and from the bodies of what was
taken out. -/
theorem TakesOut.exists_parts {outer : Option QuantifiedMember} {inner : QuantifiedMember}
    (h : TakesOut parent op φs outer inner ψ) {p r : Formula → Prop}
    (plain : ∀ φ, φ.isQuantified = false → p φ → r φ)
    (body : ∀ m : QuantifiedMember, p m.toFormula → r m.body) (all : ∀ φ ∈ φs, p φ) :
    ∃ ψs, combine op ψs = .ok ψ ∧ ∀ φ ∈ ψs, r φ := by
  cases h with
  | one found only _ built => exact ⟨_, built, forall_mem_body plain body found only all⟩
  | two _ found next _ only _ _ _ built =>
    exact ⟨_, built, forall_mem_bodies plain body found next only all⟩

/-- `ψ.WellFormed leaves`: what is left of well-formed members is well-formed. -/
theorem TakesOut.wellFormed {outer : Option QuantifiedMember} {inner : QuantifiedMember}
    (h : TakesOut parent op φs outer inner ψ) (members : ∀ φ ∈ φs, φ.WellFormed leaves) :
    ψ.WellFormed leaves := by
  obtain ⟨ψs, built, parts⟩ := h.exists_parts (fun _ _ => id)
    (fun m wellFormed => (wellFormed_toFormula_iff.1 wellFormed).2) members
  exact .of_combine parts built

/-- Of two quantifiers one is the outer and the other one the inner. -/
theorem order_cases {c : Prop} [Decidable c] {outer inner : QuantifiedMember}
    (order : (if c then (m, n) else (n, m)) = (outer, inner)) :
    outer = m ∧ inner = n ∨ outer = n ∧ inner = m := by
  split at order
  · cases order
    exact .inl ⟨rfl, rfl⟩
  · cases order
    exact .inr ⟨rfl, rfl⟩

/-- `TakesOut.Sound`: taking quantifiers out of well-formed members. -/
theorem TakesOut.sound {outer : Option QuantifiedMember} {inner : QuantifiedMember}
    (h : TakesOut parent op φs outer inner ψ) (members : ∀ φ ∈ φs, φ.WellFormed leaves) :
    TakesOut.Sound leaves op φs outer inner ψ := by
  have wellFormed := h.wellFormed members
  cases h with
  | @one before after _ _ found only unused built =>
    obtain ⟨rfl, -⟩ := findQuantifier_eq_some found
    have binder := (wellFormed_toFormula_iff.1 (members inner.toFormula (by simp))).1
    refine ⟨by simp, binder, wellFormed, ?_⟩
    intro _
    rw [underBoth, QuantifiedMember.over_eq binder]
    exact (rewrites_pulled (checkSiblings_eq_ok_iff.1 unused)).trans
      (Rewrites.of_combine built).quantified
  | @two scope before between last after m n outer _ _ enclosed found next differ only unused
      nextUnused order built =>
    obtain ⟨rfl, -⟩ := findQuantifier_eq_some found
    obtain ⟨rfl, -⟩ := findQuantifier_eq_some next
    have binder := (wellFormed_toFormula_iff.1 (members m.toFormula (by simp))).1
    have nextBinder := (wellFormed_toFormula_iff.1 (members n.toFormula (by simp))).1
    rw [checkSiblings_eq_ok_iff] at unused nextUnused
    rw [List.append_assoc] at unused
    -- The outer quantifier is moved first, past the other one; the inner one then meets its body.
    rcases order_cases order with ⟨rfl, rfl⟩ | ⟨rfl, rfl⟩
    · refine ⟨fun k hk => Option.some.inj hk ▸ binder, nextBinder, wellFormed, fun apart => ?_⟩
      rw [underBoth, QuantifiedMember.over_eq nextBinder, QuantifiedMember.over_eq binder]
      refine (rewrites_pulled_left unused ?_).trans
        (Rewrites.of_combine built).quantified.quantified
      simp only [List.forall_mem_append, List.forall_mem_cons] at nextUnused ⊢
      exact ⟨⟨nextUnused.1.1, fun x free bound => apart _ rfl x bound free, nextUnused.1.2.2⟩,
        nextUnused.2⟩
    · refine ⟨fun k hk => Option.some.inj hk ▸ nextBinder, binder, wellFormed, fun apart => ?_⟩
      rw [underBoth, QuantifiedMember.over_eq nextBinder, QuantifiedMember.over_eq binder]
      refine (rewrites_pulled_right nextUnused ?_).trans
        (Rewrites.of_combine built).quantified.quantified
      simp only [List.forall_mem_append, List.forall_mem_cons] at unused ⊢
      exact ⟨unused.1, unused.2.1, fun x free bound => apart _ rfl x bound free, unused.2.2.2⟩

/-- `underBoth outer inner ψ`: a formula under two quantifiers may be replaced. -/
theorem TakesOut.Sound.rewrites_under {outer : Option QuantifiedMember} {inner : QuantifiedMember}
    (h : TakesOut.Sound leaves op φs outer inner ψ) (below : Rewrites ψ χ) :
    Rewrites (underBoth outer inner ψ) (underBoth outer inner χ) := by
  have step : ∀ m : QuantifiedMember, IsBinder m.bound → ∀ {φ φ' : Formula}, Rewrites φ φ' →
      Rewrites (m.over φ) (m.over φ') := by
    intro m binder φ φ' rewrites
    rw [QuantifiedMember.over_eq binder, QuantifiedMember.over_eq binder]
    exact rewrites.quantified
  cases outer with
  | none => exact step inner h.innerBinder below
  | some m => exact step m (h.outerBinder m rfl) (step inner h.innerBinder below)

/-- A well-formed formula under two quantifiers that were taken out. -/
theorem TakesOut.Sound.wellFormed_under {outer : Option QuantifiedMember} {inner : QuantifiedMember}
    (h : TakesOut.Sound leaves op φs outer inner ψ) (below : χ.WellFormed leaves) :
    (underBoth outer inner χ).WellFormed leaves := by
  have step : ∀ m : QuantifiedMember, IsBinder m.bound → ∀ {φ : Formula}, φ.WellFormed leaves →
      (m.over φ).WellFormed leaves := by
    intro m binder φ body
    rw [QuantifiedMember.over_eq binder]
    exact .quantified binder body
  cases outer with
  | none => exact step inner h.innerBinder below
  | some m => exact step m (h.outerBinder m rfl) (step inner h.innerBinder below)

/-! ## What taking out needs -/

/-- Two members of a separated connective bind different variables, and none that is free in the
body of the other one. -/
theorem Separated.not_mem_body (h : (Formula.connective op φs).Separated)
    (two : φs.Perm (m.toFormula :: n.toFormula :: last)) {x : String} (bound : x ∈ n.bound) :
    x ∉ m.body.freeOccurrences := by
  have sorted : (Formula.connective op (m.toFormula :: n.toFormula :: last)).Separated := h.perm two
  have nodup := sorted.nodup
  have apart := sorted.apart x
  simp only [boundVariables_connective, freeOccurrences_connective, List.flatMap_cons,
    QuantifiedMember.toFormula, boundVariables_quantified, List.mem_append, not_or] at nodup apart
  intro free
  by_cases here : x ∈ m.bound
  · exact (List.nodup_append.1 nodup).2.2 x (by simp [here]) x (by simp [bound]) rfl
  · exact (apart (.inr (.inl (.inl bound)))).1 (mem_freeOccurrences_quantified.2 ⟨free, here⟩)

/-- `x ∉ m.body.freeOccurrences`: of two quantifiers taken out of a separated connective, the inner
one binds no variable that is free in the body of the outer one. -/
theorem TakesOut.apart {outer : Option QuantifiedMember} {inner : QuantifiedMember}
    (h : TakesOut parent op φs outer inner ψ) (separated : (Formula.connective op φs).Separated) :
    ∀ m ∈ outer, ∀ x ∈ inner.bound, x ∉ m.body.freeOccurrences := by
  cases h with
  | one => simp
  | @two scope before between last after m n outer _ _ enclosed found next differ only unused
      nextUnused order built =>
    obtain ⟨rfl, -⟩ := findQuantifier_eq_some found
    obtain ⟨rfl, -⟩ := findQuantifier_eq_some next
    -- The two quantifiers and their siblings, with the first or the second quantifier in front.
    have left : (before ++ m.toFormula :: (between ++ n.toFormula :: last)).Perm
        (m.toFormula :: n.toFormula :: (before ++ (between ++ last))) := by
      refine List.perm_middle.trans (.cons _ ?_)
      rw [← List.append_assoc, ← List.append_assoc]
      exact List.perm_middle
    have right := left.trans (.swap n.toFormula m.toFormula _)
    intro k hk x bound
    cases hk
    rcases order_cases order with ⟨rfl, rfl⟩ | ⟨rfl, rfl⟩
    · exact separated.not_mem_body left bound
    · exact separated.not_mem_body right bound

/-- `ψ.Separated`: what is left of a separated connective is separated. -/
theorem TakesOut.separated {outer : Option QuantifiedMember} {inner : QuantifiedMember}
    (h : TakesOut parent op φs outer inner ψ) (members : ∀ φ ∈ φs, φ.WellFormed leaves)
    (separated : (Formula.connective op φs).Separated) : ψ.Separated := by
  have out := h.sound members
  -- The whole result has separated variables, and so has what its quantifiers enclose.
  have under := (out.rewrites (h.apart separated)).separated separated
  cases outer with
  | none =>
    rw [underBoth, QuantifiedMember.over_eq out.innerBinder] at under
    exact under.body
  | some m =>
    rw [underBoth, QuantifiedMember.over_eq (out.outerBinder m rfl),
      QuantifiedMember.over_eq out.innerBinder] at under
    exact under.body.body

/-- `χ ∈ ψ.membersOf op`: what is left contributes formulas with their quantifiers in front, if all
members can be moved out of. -/
theorem TakesOut.isPrenex {outer : Option QuantifiedMember} {inner : QuantifiedMember}
    (h : TakesOut parent op φs outer inner ψ) (members : ∀ φ ∈ φs, φ.WellFormed leaves)
    (movable : ∀ φ ∈ φs, φ.Movable op) : ∀ χ ∈ ψ.membersOf op, χ.IsPrenex := by
  -- A quantifier that is taken out leaves its body, whose members have their quantifiers in front.
  obtain ⟨ψs, built, parts⟩ := h.exists_parts
    (p := fun φ => φ.WellFormed leaves ∧ φ.Movable op)
    (r := fun φ => φ.WellFormed leaves ∧ ∀ χ ∈ φ.membersOf op, χ.IsPrenex)
    (fun φ plain both => ⟨both.1, fun χ => IsPrenex.of_mem_membersOf (both.2.isPrenex plain)⟩)
    (fun m both => ⟨(wellFormed_toFormula_iff.1 both.1).2, both.2⟩)
    fun φ mem => ⟨members φ mem, movable φ mem⟩
  intro χ mem
  rw [membersOf_of_combine (fun φ hφ => (parts φ hφ).1) built] at mem
  obtain ⟨φ, hφ, hχ⟩ := List.mem_flatMap.1 mem
  exact (parts φ hφ).2 χ hχ

/-- `x ∉ m.bound`: no variable that a member of a separated connective binds is free in a member. -/
theorem Separated.unused (h : (Formula.connective op φs).Separated) (mem : m.toFormula ∈ φs) :
    ∀ φ ∈ φs, ∀ x ∈ φ.freeOccurrences, x ∉ m.bound := by
  intro φ hφ x free bound
  refine h.apart x ?_ ?_
  · rw [boundVariables_connective]
    refine List.mem_flatMap.2 ⟨m.toFormula, mem, ?_⟩
    rw [QuantifiedMember.toFormula, boundVariables_quantified]
    exact List.mem_append_left _ bound
  · rw [freeOccurrences_connective]
    exact List.mem_flatMap.2 ⟨φ, hφ, free⟩

/-- If at most one member of each kind is a quantifier, two of them are of different kinds, and a
third one would be one too many. -/
theorem kinds_of_single
    (single : ∀ q, (before ++ m.toFormula :: (between ++ n.toFormula :: last)).countP
      (isQuantifiedBy q) ≤ 1) :
    m.quantifier ≠ n.quantifier ∧ last.any isQuantified = false := by
  have count : ∀ q, before.countP (isQuantifiedBy q) +
      (between.countP (isQuantifiedBy q) + (last.countP (isQuantifiedBy q) +
        if n.quantifier = q then 1 else 0) + if m.quantifier = q then 1 else 0) ≤ 1 := by
    intro q
    simpa [List.countP_cons, QuantifiedMember.toFormula, isQuantifiedBy, quantifier?]
      using single q
  have differ : m.quantifier ≠ n.quantifier := by
    intro same
    have := count m.quantifier
    rw [if_pos rfl, if_pos same.symm] at this
    omega
  refine ⟨differ, List.any_eq_false.2 ?_⟩
  intro φ mem quantified
  cases φ with
  | quantified q xs φ =>
    have third : 1 ≤ last.countP (isQuantifiedBy q) :=
      List.countP_pos_iff.2 ⟨_, mem, by simp [isQuantifiedBy, quantifier?]⟩
    have := count q
    -- There are two kinds only, so that it is of the kind of one of the others.
    rcases m.quantifier.eq_or_eq_dual q with same | other
    · rw [if_pos same.symm] at this
      omega
    · have same : n.quantifier = q := by
        rw [other]
        exact (m.quantifier.eq_or_eq_dual n.quantifier).resolve_left differ.symm
      rw [if_pos same] at this
      omega
  | _ => cases quantified

/-- `TakesOut (some scope) op φs outer inner ψ`: quantifiers can be taken out of separated members
of which at most one of each kind is a quantifier. -/
theorem exists_takesOut (members : ∀ φ ∈ φs, φ.WellFormed leaves)
    (separated : (Formula.connective op φs).Separated)
    (single : ∀ q, φs.countP (isQuantifiedBy q) ≤ 1) (scope : Scope) :
    findQuantifier φs = none ∨ ∃ outer inner ψ, TakesOut (some scope) op φs outer inner ψ := by
  have body : ∀ m : QuantifiedMember, m.toFormula.WellFormed leaves → m.body.WellFormed leaves :=
    fun m wellFormed => (wellFormed_toFormula_iff.1 wellFormed).2
  rcases found : findQuantifier φs with _ | ⟨before, m, after⟩
  · exact .inl rfl
  refine .inr ?_
  rcases next : findQuantifier after with _ | ⟨between, n, last⟩
  · obtain ⟨ψ, built⟩ := exists_combine op (by simp)
      (forall_mem_body (fun _ _ => id) body found next members)
    obtain ⟨rfl, -⟩ := findQuantifier_eq_some found
    have unused := separated.unused (m := m) (by simp)
    refine ⟨none, m, ψ, .one found next (checkSiblings_eq_ok_iff.2 ?_) built⟩
    intro φ mem
    exact unused φ (by grind)
  · -- A third quantifier would be of the kind of one of the first two.
    obtain ⟨rfl, -⟩ := findQuantifier_eq_some next
    have same := (findQuantifier_eq_some found).1
    obtain ⟨differ, only⟩ := kinds_of_single (same ▸ single)
    obtain ⟨ψ, built⟩ := exists_combine op (by simp)
      (forall_mem_bodies (fun _ _ => id) body found next only members)
    subst same
    have unused := separated.unused (m := m) (by simp)
    have nextUnused := separated.unused (m := n) (by simp)
    refine ⟨_, _, ψ, .two rfl found next differ only (checkSiblings_eq_ok_iff.2 ?_)
      (checkSiblings_eq_ok_iff.2 ?_) rfl built⟩
    · intro φ mem
      exact unused φ (by grind)
    · intro φ mem
      exact nextUnused φ (by grind)

end ClausalForm.Formula
