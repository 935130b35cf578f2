import ClausalForm.Proofs.TakingOut
import Mathlib.Logic.Relation

/-! # Moving quantifiers to the front

`Formula.rescope` and `Formula.hoist` call each other. A run of them is described by the calls that
it makes, so that a condition can be put on every pair of quantifiers that it moves together.

* **`Formula.Call`**, **`Formula.Call.Makes`**: a call, and the calls made by it.
* **`Formula.Call.MovesApart`**: no inner quantifier of a run captures a variable of the outer one
  that is moved with it.
* **`Formula.Call.sound`**: such a run keeps the meaning, whether variables are separated or not.
* **`Formula.exists_hoist`**: on separated variables the run succeeds and leaves all quantifiers in
  front. -/

namespace ClausalForm.Formula

variable {leaves : Leaves} {parent : Option Scope} {op op' : Connective} {q : Quantifier}
  {xs : List String} {φ ψ χ r : Formula} {φs ψs : List Formula}

/-! ## Calls -/

/-- A call of one of the two functions, `rescope` and `hoist`. -/
inductive Call where
  | rescope (parent : Option Scope) (φ : Formula)
  | hoist (parent : Option Scope) (φ : Formula)

/-- `c.formula`: the formula that a call is made with. -/
def Call.formula : Call → Formula
  | rescope _ φ => φ
  | hoist _ φ => φ

/-- `c.run`: what a call returns. -/
def Call.run : Call → Except NormalizationError Formula
  | rescope parent φ => φ.rescope parent
  | hoist parent φ => φ.hoist parent

/-- `c.Makes d`: the calls that are made by a call. -/
inductive Call.Makes : Call → Call → Prop
  | remainder {parent : Option Scope} {op : Connective} {φs : List Formula}
      {outer : Option QuantifiedMember} {inner : QuantifiedMember} {ψ : Formula}
      (taken : TakesOut parent op φs outer inner ψ) :
      Makes (.rescope parent (.connective op φs)) (.hoist (some inner.quantifier.scope) ψ)
  | members {parent : Option Scope} {op op' : Connective} {φs ψs : List Formula}
      (merged : coalesceMembers op φs = .ok (.connective op' ψs)) :
      Makes (.hoist parent (.connective op φs)) (.rescope parent (.connective op' ψs))
  | single {parent : Option Scope} {op : Connective} {φs : List Formula} {q : Quantifier}
      {xs : List String} {ψ : Formula}
      (merged : coalesceMembers op φs = .ok (.quantified q xs ψ)) :
      Makes (.hoist parent (.connective op φs)) (.hoist parent (.quantified q xs ψ))
  | body {parent : Option Scope} {q : Quantifier} {xs : List String} {φ : Formula} :
      Makes (.hoist parent (.quantified q xs φ)) (.hoist (some q.scope) φ)

/-- **Moving quantifiers apart.** `c.MovesApart`: whenever the run of a call moves two quantifiers
together, the one that goes inside binds no variable that is free in the body of the other. -/
def Call.MovesApart (c : Call) : Prop :=
  ∀ parent op φs outer inner ψ,
    Relation.ReflTransGen Call.Makes c (.rescope parent (.connective op φs)) →
      TakesOut parent op φs (some outer) inner ψ →
        ∀ x ∈ inner.bound, x ∉ outer.body.freeOccurrences

/-- `d.MovesApart`: what is asked of a run is asked of the runs that are part of it. -/
theorem Call.MovesApart.of_makes {c d : Call} (h : c.MovesApart) (makes : c.Makes d) :
    d.MovesApart := fun parent op φs outer inner ψ reached =>
  h parent op φs outer inner ψ (.head makes reached)

/-! ## What the functions return -/

/-- Nothing is hoisted in an atom. -/
@[simp] theorem hoist_atom (a : Atom) : hoist parent (.atom a) = .ok (.atom a) := by
  simp [hoist]

/-- Nothing is hoisted out of a negation. -/
@[simp] theorem hoist_not (φ : Formula) : hoist parent (.not φ) = .ok (.not φ) := by
  simp [hoist]

/-- `hoist parent (quantified q xs φ) = .ok r`: hoisting below a quantifier. -/
theorem hoist_quantified_eq_ok_iff : hoist parent (.quantified q xs φ) = .ok r ↔
    ∃ ψ, hoist (some q.scope) φ = .ok ψ ∧ r = (Formula.quantified q xs ψ).simplify := by
  rw [hoist, bind_eq_ok_iff]
  constructor
  · rintro ⟨ψ, below, same⟩
    exact ⟨ψ, below, (Except.ok.inj same).symm⟩
  · rintro ⟨ψ, below, rfl⟩
    exact ⟨ψ, below, rfl⟩

/-- `coalesceMembers op φs`: hoisting goes on with the connective that merging leaves. -/
theorem hoist_of_connective (merged : coalesceMembers op φs = .ok (.connective op' ψs)) :
    hoist parent (.connective op φs) = rescope parent (.connective op' ψs) := by
  rw [hoist]
  split
  · next e failed => rw [failed] at merged; cases merged
  · next op'' χs same => rw [same] at merged; cases merged; rfl
  · next same => rw [same] at merged; cases merged
  · next ψ other _ same =>
    rw [same] at merged
    cases merged
    exact absurd rfl (other _ _)

/-- `coalesceMembers op φs`: hoisting goes on with the quantifier that merging leaves. -/
theorem hoist_of_quantified (merged : coalesceMembers op φs = .ok (.quantified q xs ψ)) :
    hoist parent (.connective op φs) = hoist parent (.quantified q xs ψ) := by
  rw [hoist]
  split
  · next e failed => rw [failed] at merged; cases merged
  · next same => rw [same] at merged; cases merged
  · next same => rw [same] at merged; cases merged; rfl
  · next χ _ other same =>
    rw [same] at merged
    cases merged
    exact absurd rfl (other _ _ _)

/-- The body of a quantifier has fewer quantifiers. -/
theorem quantifierCount_body_lt (q : Quantifier) (xs : List String) (φ : Formula) :
    φ.quantifierCount < (Formula.quantified q xs φ).quantifierCount := by
  rw [quantifierCount]
  exact Nat.lt_succ_self _

/-- The body of the quantifier that merging leaves has fewer quantifiers than the connective. -/
theorem quantifierCount_merged_lt (merged : coalesceMembers op φs = .ok (.quantified q xs ψ)) :
    ψ.quantifierCount < (Formula.connective op φs).quantifierCount := by
  have le := quantifierCount_coalesceMembers merged
  rw [quantifierCount_connective]
  exact Nat.lt_of_lt_of_le (quantifierCount_body_lt q xs ψ) le

/-- `coalesceMembers op φs = .ok χ`: hoisting in a connective succeeds only if its members can be
merged. -/
theorem coalesceMembers_of_hoist (h : hoist parent (.connective op φs) = .ok r) :
    ∃ χ, coalesceMembers op φs = .ok χ := by
  rw [hoist] at h
  split at h
  · cases h
  · next same => exact ⟨_, same⟩
  · next same => exact ⟨_, same⟩
  · next same => exact ⟨_, same⟩

/-! ## Runs that keep the meaning -/

/-- `Sound leaves φ r`: the result of a call may replace its formula. -/
structure Sound (leaves : Leaves) (φ r : Formula) : Prop where
  rewrites : Rewrites φ r
  wellFormed : r.WellFormed leaves

/-- A quantifier over the result of a sound call. -/
theorem Sound.quantified (body : Sound leaves φ r) (binder : IsBinder xs) :
    Sound leaves (.quantified q xs φ) (Formula.quantified q xs r).simplify :=
  ⟨body.rewrites.quantified.trans (rewrites_simplify _),
    (WellFormed.quantified binder body.wellFormed).simplify⟩

/-- `coalesceMembers op φs = .ok χ`: merging the members of a well-formed connective is sound. -/
theorem sound_of_coalesceMembers (wellFormed : (Formula.connective op φs).WellFormed leaves)
    (h : coalesceMembers op φs = .ok χ) : Sound leaves (.connective op φs) χ := by
  obtain ⟨ψs, merged, ⟨two, rfl⟩ | ⟨rfl, -⟩⟩ := merged_of_coalesceMembers wellFormed h
  · exact ⟨merged.rewrites, .connective two merged.flat merged.wellFormed⟩
  · exact ⟨merged.rewrites.trans .of_singleton, merged.wellFormed χ List.mem_cons_self⟩

/-- One call of `rescope`, if all that is left below it is hoisted soundly. -/
theorem sound_of_rescope_connective
    (below : ∀ ψ parent r, ψ.quantifierCount < totalCount φs → ψ.WellFormed leaves →
      (Call.hoist parent ψ).MovesApart → hoist parent ψ = .ok r → Sound leaves ψ r)
    (wellFormed : (Formula.connective op φs).WellFormed leaves)
    (apart : (Call.rescope parent (.connective op φs)).MovesApart)
    (h : rescope parent (.connective op φs) = .ok r) : Sound leaves (.connective op φs) r := by
  rcases rescope_eq_ok_iff.1 h with ⟨-, rfl⟩ | ⟨outer, inner, ψ, ψ', taken, rest, rfl⟩
  · exact ⟨.refl _, wellFormed⟩
  · cases wellFormed with
    | connective _ _ members =>
      have out := taken.sound members
      have rest := below ψ _ ψ' taken.quantifierCount_lt out.wellFormed
        (apart.of_makes (.remainder taken)) rest
      have here : ∀ m ∈ outer, ∀ x ∈ inner.bound, x ∉ m.body.freeOccurrences := by
        intro m hm
        cases hm
        exact apart parent op φs m inner ψ .refl taken
      -- First the quantifiers are moved out, then what is left below them is rewritten.
      have under := out.wellFormed_under rest.wellFormed
      exact ⟨(out.rewrites here).trans ((out.rewrites_under rest.rewrites).trans
        (rewrites_simplify _)), under.simplify⟩

/-- `hoist parent φ = .ok r`: the result of hoisting may replace a well-formed formula, if
quantifiers that are moved together do not capture each other's variables. -/
theorem sound_of_hoist (wellFormed : φ.WellFormed leaves)
    (apart : (Call.hoist parent φ).MovesApart) (h : hoist parent φ = .ok r) : Sound leaves φ r := by
  -- Each call goes on with a formula of fewer quantifiers, after at most one more call.
  induction count : φ.quantifierCount using Nat.strongRecOn generalizing φ parent r with
  | ind n ih =>
    subst count
    cases φ with
    | atom a =>
      rw [hoist_atom] at h
      cases h
      exact ⟨.refl _, wellFormed⟩
    | not φ =>
      rw [hoist_not] at h
      cases h
      exact ⟨.refl _, wellFormed⟩
    | quantified q xs φ =>
      obtain ⟨ψ, below, rfl⟩ := hoist_quantified_eq_ok_iff.1 h
      cases wellFormed with
      | quantified binder body =>
        have less := quantifierCount_body_lt q xs φ
        exact (ih _ less body (apart.of_makes .body) below rfl).quantified binder
    | connective op φs =>
      obtain ⟨χ, merging⟩ := coalesceMembers_of_hoist h
      have le := quantifierCount_coalesceMembers merging
      have merged := sound_of_coalesceMembers wellFormed merging
      obtain ⟨ψs, -, ⟨-, rfl⟩ | ⟨-, quantified⟩⟩ := merged_of_coalesceMembers wellFormed merging
      · rw [hoist_of_connective merging] at h
        have rest := sound_of_rescope_connective (fun ψ parent r less body apart h =>
          ih ψ.quantifierCount (Nat.lt_of_lt_of_le less le) body apart h rfl)
          merged.wellFormed (apart.of_makes (.members merging)) h
        exact ⟨merged.rewrites.trans rest.rewrites, rest.wellFormed⟩
      · cases merged.wellFormed with
        | @quantified q xs ψ binder body =>
          rw [hoist_of_quantified merging] at h
          have apart := (apart.of_makes (.single merging)).of_makes .body
          obtain ⟨ψ', below, rfl⟩ := hoist_quantified_eq_ok_iff.1 h
          have less := quantifierCount_merged_lt merging
          have rest := (ih _ less body apart below rfl).quantified (q := q) binder
          exact ⟨merged.rewrites.trans rest.rewrites, rest.wellFormed⟩
        | _ => cases quantified

/-- `c.run = .ok r`: every call that moves quantifiers apart is sound. -/
theorem Call.sound {c : Call} (wellFormed : c.formula.WellFormed leaves) (apart : c.MovesApart)
    (h : c.run = .ok r) : Sound leaves c.formula r := by
  cases c with
  | hoist parent φ => exact sound_of_hoist wellFormed apart h
  | rescope parent φ =>
    rw [Call.formula] at wellFormed ⊢
    rw [Call.run] at h
    cases φ with
    | connective op φs =>
      exact sound_of_rescope_connective
        (fun ψ parent r _ body apart h => sound_of_hoist body apart h) wellFormed apart h
    | _ =>
      simp only [Formula.rescope, Except.ok.injEq] at h
      rw [← h]
      exact ⟨.refl _, wellFormed⟩

/-! ## Separated variables -/

/-- `c.Makes d`: calls with separated well-formed formulas make such calls only. -/
theorem Call.Makes.separated {c d : Call} (h : c.Makes d) (wellFormed : c.formula.WellFormed leaves)
    (separated : c.formula.Separated) : d.formula.WellFormed leaves ∧ d.formula.Separated := by
  cases h with
  | remainder taken =>
    cases wellFormed with
    | connective _ _ members =>
      exact ⟨(taken.sound members).wellFormed, taken.separated members separated⟩
  | members merged =>
    have sound := sound_of_coalesceMembers wellFormed merged
    exact ⟨sound.wellFormed, sound.rewrites.separated separated⟩
  | single merged =>
    have sound := sound_of_coalesceMembers wellFormed merged
    exact ⟨sound.wellFormed, sound.rewrites.separated separated⟩
  | body =>
    cases wellFormed with
    | quantified _ body => exact ⟨body, separated.body⟩

/-- `c.MovesApart`: on separated variables no quantifier captures a variable of another one. -/
theorem Call.movesApart_of_separated {c : Call} (wellFormed : c.formula.WellFormed leaves)
    (separated : c.formula.Separated) : c.MovesApart := by
  intro parent op φs outer inner ψ reached taken
  -- Being well-formed and separated is an invariant of the calls.
  have kept : ∀ d, Relation.ReflTransGen Call.Makes c d →
      d.formula.WellFormed leaves ∧ d.formula.Separated := by
    intro d reached
    induction reached with
    | refl => exact ⟨wellFormed, separated⟩
    | tail _ makes ih => exact makes.separated ih.1 ih.2
  exact taken.apart (kept _ reached).2 outer rfl

/-- Hoisting below a quantifier leaves the quantifiers of the result in front. -/
theorem exists_hoist_quantified (below : ∃ ψ, hoist (some q.scope) φ = .ok ψ ∧ ψ.IsPrenex) :
    ∃ r, hoist parent (.quantified q xs φ) = .ok r ∧ r.IsPrenex := by
  obtain ⟨ψ, below, prenex⟩ := below
  exact ⟨_, hoist_quantified_eq_ok_iff.2 ⟨ψ, below, rfl⟩,
    IsPrenex.simplify (isPrenex_quantified.2 prenex)⟩

/-- One call of `rescope` on separated variables, if all that is left below it can be hoisted. -/
theorem exists_rescope
    (below : ∀ ψ scope, ψ.quantifierCount < totalCount φs → ψ.WellFormed leaves → ψ.Separated →
      (∀ χ ∈ ψ.membersOf op, χ.IsPrenex) → ∃ r, hoist (some scope) ψ = .ok r ∧ r.IsPrenex)
    (wellFormed : (Formula.connective op φs).WellFormed leaves)
    (separated : (Formula.connective op φs).Separated)
    (single : ∀ q, φs.countP (isQuantifiedBy q) ≤ 1) (movable : ∀ φ ∈ φs, φ.Movable op)
    (scope : Scope) : ∃ r, rescope (some scope) (.connective op φs) = .ok r ∧ r.IsPrenex := by
  cases wellFormed with
  | connective _ _ members =>
    rcases exists_takesOut members separated single scope with none | ⟨outer, inner, ψ, taken⟩
    · -- No member is a quantifier, and a movable member that is none has none below it either.
      refine ⟨_, rescope_eq_ok_iff.2 (.inl ⟨none, rfl⟩), isPrenex_of_quantifierCount ?_⟩
      rw [quantifierCount_connective, totalCount_eq_zero_iff]
      intro φ mem
      have plain := findQuantifier_eq_none_iff.1 none φ mem
      exact ((movable φ mem).isPrenex plain).quantifierCount plain
    · have out := taken.sound members
      obtain ⟨ψ', rest, prenex⟩ := below ψ inner.quantifier.scope taken.quantifierCount_lt
        out.wellFormed (taken.separated members separated) (taken.isPrenex members movable)
      refine ⟨_, rescope_eq_ok_iff.2 (.inr ⟨outer, inner, ψ, ψ', taken, rest, rfl⟩), ?_⟩
      refine IsPrenex.simplify ?_
      cases outer with
      | none => exact prenex.quantify
      | some m => exact prenex.quantify.quantify

/-- `hoist (some scope) φ`: on separated variables, hoisting in a connective whose members have
their quantifiers in front succeeds, and moves all of them to the front. -/
theorem exists_hoist (wellFormed : φ.WellFormed leaves) (separated : φ.Separated)
    (gathered : ∀ ψ ∈ φ.membersOf op, ψ.IsPrenex) (scope : Scope) :
    ∃ r, hoist (some scope) φ = .ok r ∧ r.IsPrenex := by
  -- As for soundness; what is left by merging is movable, and what is taken out of it is in front.
  induction count : φ.quantifierCount using Nat.strongRecOn generalizing φ op scope with
  | ind n ih =>
    subst count
    have own : φ.isConnective op = false → φ.IsPrenex := by
      intro other
      rw [membersOf_of_not other] at gathered
      exact gathered φ List.mem_cons_self
    cases φ with
    | atom a => exact ⟨_, hoist_atom a, own rfl⟩
    | not φ => exact ⟨_, hoist_not φ, own rfl⟩
    | quantified q xs φ =>
      cases wellFormed with
      | quantified _ body =>
        have prenex := isPrenex_quantified.1 (own rfl)
        have less := quantifierCount_body_lt q xs φ
        have inside : ∀ ψ ∈ φ.membersOf op, ψ.IsPrenex := fun ψ mem => prenex.of_mem_membersOf mem
        exact exists_hoist_quantified (ih _ less body separated.body inside _ rfl)
    | connective op' φs =>
      have movable : ∀ φ ∈ φs, φ.Movable op' := fun φ mem =>
        (isPrenex_of_mem gathered mem).movable op'
      obtain ⟨χ, merging⟩ := exists_coalesceMembers wellFormed separated
      have le := quantifierCount_coalesceMembers merging
      have sound := sound_of_coalesceMembers wellFormed merging
      have apart := sound.rewrites.separated separated
      obtain ⟨ψs, merged, ⟨-, rfl⟩ | ⟨rfl, quantified⟩⟩ :=
        merged_of_coalesceMembers wellFormed merging
      · rw [hoist_of_connective merging]
        exact exists_rescope (fun ψ scope less body separated gathered =>
          ih ψ.quantifierCount (Nat.lt_of_lt_of_le less le) body separated gathered scope rfl)
          sound.wellFormed apart merged.single (merged.movable movable) scope
      · have gathered := merged.movable movable χ List.mem_cons_self
        cases sound.wellFormed with
        | @quantified q xs ψ _ body =>
          rw [hoist_of_quantified merging]
          have less := quantifierCount_merged_lt merging
          exact exists_hoist_quantified (ih _ less body apart.body gathered _ rfl)
        | _ => cases quantified

end ClausalForm.Formula
