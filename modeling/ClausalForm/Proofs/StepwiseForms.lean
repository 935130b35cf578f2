import ClausalForm.Conjunctive
import ClausalForm.Proofs.Loops

/-! # Conversion step by step

The conversion of a formula into conjunctive normal form as it is carried out: the members of a
connective are converted first, and the disjuncts of a disjunction are distributed over each other
in a loop, each turn of which uses `Formula.distribute` once. What is left in the end is converted
once more.

* **`Formula.distributionTurn`**: one turn of the loop.
* **`Formula.Distributing`**: what the loop makes of the disjuncts.
* **`Formula.ReachesForm`**: the conversion of a formula ends with a result.
* **`Formula.ReachesForm.unique`**: it ends with one result only.
* **`Formula.reachesForm_and`**, **`Formula.reachesForm_or`**: connectives, from what their members
  come to. -/

namespace ClausalForm.Formula

variable {φ χ : Formula} {φs ψs : List Formula}

/-! ## The loop -/

/-- `firstConjunction? φs = some (ψ, others)`: the first conjunction of a list is `ψ`, and `others`
are all other formulas, in their order. -/
def firstConjunction? : List Formula → Option (Formula × List Formula)
  | [] => none
  | φ :: φs =>
    if φ.isConnective .and then some (φ, φs)
    else (firstConjunction? φs).map fun (ψ, others) => (ψ, φ :: others)

/-- How a disjunction is done with: there is a `result`, or one formula is `remaining` to be
converted. -/
inductive Outcome where
  | result (r : Except NormalizationError Formula)
  | remaining (φ : Formula)

/-- `distributionTurn φs`: one turn of the loop over the disjuncts `φs`. The first of the other
disjuncts is distributed over the first conjunction, by `distribute`, and what comes out takes the
place of both, in front of the rest. If there is no rest, it remains to be converted; if there is no
conjunction, the disjuncts are joined again. -/
def distributionTurn (φs : List Formula) : List Formula ⊕ Outcome :=
  match firstConjunction? φs with
  | some (ψ, φ :: others) =>
    match distribute φ ψ, others with
    | .error e, _ => .inr (.result (.error e))
    | .ok χ, [] => .inr (.remaining χ)
    | .ok χ, θ :: rest => .inl (χ :: θ :: rest)
  | _ => .inr (.result (combine .or φs))

/-- `Distributing built outcome`: what is `built` of the disjuncts is done with as it is, or it is a
disjunction, and the loop over its members ends with `outcome`. -/
inductive Distributing : Except NormalizationError Formula → Outcome → Prop
  | unbuilt (e : NormalizationError) : Distributing (.error e) (.result (.error e))
  | single {φ : Formula} (other : φ.isConnective .or = false) :
      Distributing (.ok φ) (.result (.ok φ))
  | loop {φs : List Formula} {n : Nat} {outcome : Outcome}
      (turns : Loop distributionTurn n φs outcome) :
      Distributing (.ok (.connective .or φs)) outcome

/-- `a = b`: there is only one outcome. -/
theorem Distributing.unique {built : Except NormalizationError Formula} {a b : Outcome}
    (h : Distributing built a) (h' : Distributing built b) : a = b := by
  cases h with
  | unbuilt e =>
    cases h'
    rfl
  | single other =>
    cases h' with
    | single => rfl
    | loop => cases other
  | loop turns =>
    cases h' with
    | single other => cases other
    | loop turns' => exact turns.unique turns'

/-! ## The conversion -/

/-- `memberResult result φ`: what comes of `φ` as a member of a connective, where a quantifier is
refused, and `result φ` is what comes of any other formula. -/
def memberResult (result : Formula → Except NormalizationError Formula) (φ : Formula) :
    Except NormalizationError Formula :=
  if φ.isQuantified then .error (.malformed (.quantifierInMatrix φ)) else result φ

/-- `φ.ReachesForm r`: converting `φ` into conjunctive normal form step by step ends with `r`. -/
inductive ReachesForm : Formula → Except NormalizationError Formula → Prop
  /-- An atom is its own form. -/
  | atom (a : Atom) : ReachesForm (.atom a) (.ok (.atom a))
  /-- So is the negation of an atom. -/
  | literal {φ : Formula} (atomic : φ.isAtom = true) : ReachesForm (.not φ) (.ok (.not φ))
  /-- Another negation is pushed down, which may fail. -/
  | unpushed {φ : Formula} {e : NormalizationError} (compound : φ.isAtom = false)
      (failed : pushNegations (.not φ) = .error e) : ReachesForm (.not φ) (.error e)
  /-- What a negation is pushed down to is converted in its place. -/
  | negation {φ ψ : Formula} {r : Except NormalizationError Formula} (compound : φ.isAtom = false)
      (pushed : pushNegations (.not φ) = .ok ψ) (form : ReachesForm ψ r) : ReachesForm (.not φ) r
  /-- A quantifier stays in front of the form of its body. -/
  | quantified {q : Quantifier} {xs : List String} {φ : Formula}
      {r : Except NormalizationError Formula} (body : ReachesForm φ r) :
      ReachesForm (.quantified q xs φ) (.quantified q xs <$> r)
  /-- The members of a conjunction are converted one after the other, and conjoined. -/
  | conjunction {φs : List Formula} {result : Formula → Except NormalizationError Formula}
      (members : ∀ φ ∈ φs, φ.isQuantified = false → ReachesForm φ (result φ)) :
      ReachesForm (.connective .and φs) (inOrder (φs.map (memberResult result)) >>= combine .and)
  /-- The members of a disjunction are converted, disjoined, and distributed over each other. -/
  | disjunction {φs : List Formula} {result : Formula → Except NormalizationError Formula}
      {r : Except NormalizationError Formula}
      (members : ∀ φ ∈ φs, φ.isQuantified = false → ReachesForm φ (result φ))
      (distributing : Distributing (inOrder (φs.map (memberResult result)) >>= combine .or)
        (.result r)) : ReachesForm (.connective .or φs) r
  /-- What remains after that is converted once more. -/
  | remaining {φs : List Formula} {result : Formula → Except NormalizationError Formula}
      {χ : Formula} {r : Except NormalizationError Formula}
      (members : ∀ φ ∈ φs, φ.isQuantified = false → ReachesForm φ (result φ))
      (distributing : Distributing (inOrder (φs.map (memberResult result)) >>= combine .or)
        (.remaining χ)) (form : ReachesForm χ r) : ReachesForm (.connective .or φs) r

/-- `memberResult`: members of which the same comes have the same results in order. -/
theorem inOrder_memberResult {result result' : Formula → Except NormalizationError Formula}
    (same : ∀ φ ∈ φs, φ.isQuantified = false → result φ = result' φ) :
    inOrder (φs.map (memberResult result)) = inOrder (φs.map (memberResult result')) := by
  refine congrArg inOrder (List.map_congr_left fun φ mem => ?_)
  unfold memberResult
  by_cases kind : φ.isQuantified = true
  · rw [if_pos kind, if_pos kind]
  · rw [if_neg kind, if_neg kind, same φ mem (eq_false_of_ne_true kind)]

/-- `a = b`: where the members of a disjunction have the same results, there is only one outcome. -/
theorem Distributing.unique_of_members {a b : Outcome}
    {result result' : Formula → Except NormalizationError Formula}
    (h : Distributing (inOrder (φs.map (memberResult result)) >>= combine .or) a)
    (h' : Distributing (inOrder (φs.map (memberResult result')) >>= combine .or) b)
    (same : ∀ φ ∈ φs, φ.isQuantified = false → result φ = result' φ) : a = b := by
  rw [inOrder_memberResult same] at h
  exact h.unique h'

/-- `r = r'`: a conversion ends with one result only. -/
theorem ReachesForm.unique {r r' : Except NormalizationError Formula} (h : φ.ReachesForm r)
    (h' : φ.ReachesForm r') : r = r' := by
  -- By rule induction: in each case only the rules for the same shape apply, and what they run
  -- before is run once with the same end.
  induction h generalizing r' with
  | atom a =>
    cases h'
    rfl
  | literal atomic =>
    cases h' with
    | literal => rfl
    | unpushed compound | negation compound => cases atomic.symm.trans compound
  | unpushed compound failed =>
    cases h' with
    | literal atomic => cases atomic.symm.trans compound
    | unpushed _ failed' => exact failed.symm.trans failed'
    | negation _ pushed => cases failed.symm.trans pushed
  | negation compound pushed _ ih =>
    cases h' with
    | literal atomic => cases atomic.symm.trans compound
    | unpushed _ failed => cases pushed.symm.trans failed
    | negation _ pushed' form =>
      cases pushed.symm.trans pushed'
      exact ih form
  | quantified _ ih =>
    cases h' with
    | quantified body => rw [ih body]
  | conjunction _ ih =>
    cases h' with
    | conjunction members =>
      rw [inOrder_memberResult fun φ mem plain => ih φ mem plain (members φ mem plain)]
  | disjunction _ distributing ih =>
    -- The members come to the same results, so that the loop is the same one: it cannot both end
    -- and go on.
    cases h' with
    | disjunction members distributing' =>
      cases distributing.unique_of_members distributing' fun φ mem plain =>
        ih φ mem plain (members φ mem plain)
      rfl
    | remaining members distributing' =>
      cases distributing.unique_of_members distributing' fun φ mem plain =>
        ih φ mem plain (members φ mem plain)
  | remaining _ distributing _ ih ihForm =>
    cases h' with
    | disjunction members distributing' =>
      cases distributing.unique_of_members distributing' fun φ mem plain =>
        ih φ mem plain (members φ mem plain)
    | remaining members distributing' form =>
      cases distributing.unique_of_members distributing' fun φ mem plain =>
        ih φ mem plain (members φ mem plain)
      exact ihForm form

/-! ## Members and their results -/

/-- `φ.MemberReaches r`: as a member of a connective `φ` comes to `r`. A quantifier is refused, and
any other formula is converted. -/
structure MemberReaches (φ : Formula) (r : Except NormalizationError Formula) : Prop where
  refused : φ.isQuantified = true → r = .error (.malformed (.quantifierInMatrix φ))
  form : φ.isQuantified = false → φ.ReachesForm r

/-- `φ.MemberReaches r`: a member that is no quantifier comes to what it is converted to. -/
theorem MemberReaches.of_plain {r : Except NormalizationError Formula}
    (plain : φ.isQuantified = false) (form : φ.ReachesForm r) : φ.MemberReaches r :=
  ⟨fun kind => by simp [plain] at kind, fun _ => form⟩

section Members

variable {α : Type} {as : List α} {f : α → Formula} {g : α → Except NormalizationError Formula}

/-- Results `g a` of members `f a` may be taken for results of formulas, as a formula has one result
only. -/
theorem exists_memberResult (each : ∀ a ∈ as, (f a).MemberReaches (g a)) :
    ∃ result, (∀ φ ∈ as.map f, φ.isQuantified = false → φ.ReachesForm (result φ)) ∧
      inOrder ((as.map f).map (memberResult result)) = inOrder (as.map g) := by
  classical
  -- Equal members may stand at different places, so that a result is chosen for each formula.
  let result (φ : Formula) : Except NormalizationError Formula :=
    if h : ∃ r, φ.ReachesForm r then h.choose else .ok φ
  have reached : ∀ a ∈ as, (f a).isQuantified = false → result (f a) = g a := by
    intro a mem plain
    have h : ∃ r, (f a).ReachesForm r := ⟨g a, (each a mem).form plain⟩
    show dite _ _ _ = _
    rw [dif_pos h]
    exact h.choose_spec.unique ((each a mem).form plain)
  refine ⟨result, List.forall_mem_map.2 fun a mem plain => ?_, ?_⟩
  · rw [reached a mem plain]
    exact (each a mem).form plain
  · rw [List.map_map]
    refine congrArg inOrder (List.map_congr_left fun a mem => ?_)
    show memberResult result (f a) = g a
    unfold memberResult
    split
    · next kind => exact ((each a mem).refused kind).symm
    · next plain => exact reached a mem (eq_false_of_ne_true plain)

/-- `inOrder (as.map g) >>= combine .and`: a conjunction of members is converted to the conjunction
of their results. -/
theorem reachesForm_and (each : ∀ a ∈ as, (f a).MemberReaches (g a)) :
    (Formula.connective .and (as.map f)).ReachesForm (inOrder (as.map g) >>= combine .and) := by
  obtain ⟨result, members, same⟩ := exists_memberResult each
  rw [← same]
  exact .conjunction members

/-- `Distributing` on the results of the members decides what a disjunction is converted to. -/
theorem reachesForm_or {r : Except NormalizationError Formula}
    (each : ∀ a ∈ as, (f a).MemberReaches (g a))
    (distributing : Distributing (inOrder (as.map g) >>= combine .or) (.result r)) :
    (Formula.connective .or (as.map f)).ReachesForm r := by
  obtain ⟨result, members, same⟩ := exists_memberResult each
  rw [← same] at distributing
  exact .disjunction members distributing

/-- `Distributing` leaves `χ` of the results of a disjunction. What `χ` is converted to, the
disjunction is. -/
theorem reachesForm_or_remaining {r : Except NormalizationError Formula}
    (each : ∀ a ∈ as, (f a).MemberReaches (g a))
    (distributing : Distributing (inOrder (as.map g) >>= combine .or) (.remaining χ))
    (form : χ.ReachesForm r) : (Formula.connective .or (as.map f)).ReachesForm r := by
  obtain ⟨result, members, same⟩ := exists_memberResult each
  rw [← same] at distributing
  exact .remaining members distributing form

end Members

end ClausalForm.Formula
