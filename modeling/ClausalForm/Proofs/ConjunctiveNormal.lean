import ClausalForm.Clause
import ClausalForm.Conjunctive
import ClausalForm.Proofs.NegationNormal

/-! # Conjunctive normal form

The conjuncts of a formula without quantifiers are found and say what it says.

* **`Conjuncts.IsProper`**: some clauses, each of some literals.
* **`Formula.exists_distributeDisjuncts`**: a disjunction of literals and conjunctions.
* **`Formula.exists_conjuncts`**: all formulas without quantifiers and empty connectives.
* **`Formula.exists_conjunctiveForm`**: the form may replace the formula. -/

namespace ClausalForm

/-! ## Lists of clauses -/

/-- The conjuncts of a formula, each the list of its disjuncts. -/
abbrev Conjuncts := List (List Formula)

namespace Conjuncts

/-- `Conjuncts.Holds S v css`: some disjunct of each conjunct holds. -/
def Holds {D : Type} (S : Structure D) (v : Valuation D) (css : Conjuncts) : Prop :=
  ∀ c ∈ css, ∃ φ ∈ c, φ.Holds S v

/-- `Conjuncts.Contains p css`: some disjunct of some conjunct has the property `p`. -/
def Contains (p : Formula → Prop) (css : Conjuncts) : Prop := ∃ c ∈ css, ∃ φ ∈ c, p φ

/-- `Conjuncts.IsProper leaves css`: there are clauses, and all of them consist of literals, at
least one each. -/
structure IsProper (leaves : Leaves) (css : Conjuncts) : Prop where
  some : css ≠ []
  clause : ∀ c ∈ css, c ≠ []
  literal : ∀ c ∈ css, ∀ φ ∈ c, φ.isLiteral = true ∧ φ.WellFormed leaves

/-- `css.IsPlain`: no part of the conjuncts is a connective. -/
def IsPlain (css : Conjuncts) : Prop := ∀ c ∈ css, ∀ φ ∈ c, ∀ op, φ.isConnective op = false

end Conjuncts

namespace Formula

variable {leaves : Leaves} {φ ψ : Formula} {φs : List Formula} {css : Conjuncts}
  {d : Disjunct} {ds others : List Disjunct}

/-- `φ.isLiteral = true`: a literal is no quantifier. -/
theorem isQuantified_of_isLiteral (literal : φ.isLiteral = true) : φ.isQuantified = false := by
  cases φ with
  | quantified => cases literal
  | _ => rfl

/-- `φ.isLiteral = true`: a literal is no connective. -/
theorem isConnective_of_isLiteral (literal : φ.isLiteral = true) (op : Connective) :
    φ.isConnective op = false := by
  cases φ with
  | connective => cases literal
  | _ => rfl

/-- `φ.quantifierCount = 0`: a literal has no quantifiers. -/
theorem quantifierCount_of_isLiteral (literal : φ.isLiteral = true) : φ.quantifierCount = 0 := by
  cases φ with
  | atom a => rfl
  | not φ =>
    cases φ with
    | atom a => rfl
    | _ => cases literal
  | _ => cases literal

/-! ## Disjunctions -/

/-- `d.Holds S v`: the truth of a disjunct. -/
def Disjunct.Holds {D : Type} (S : Structure D) (v : Valuation D) : Disjunct → Prop
  | simple φ => φ.Holds S v
  | conjunction css => Conjuncts.Holds S v css

/-- `d.Contains p`: some part of a disjunct has the property `p`. -/
def Disjunct.Contains (p : Formula → Prop) : Disjunct → Prop
  | simple φ => p φ
  | conjunction css => Conjuncts.Contains p css

/-- `d.IsProper leaves`: a disjunct is a literal or a conjunction of clauses. -/
def Disjunct.IsProper (leaves : Leaves) : Disjunct → Prop
  | simple φ => φ.isLiteral = true ∧ φ.WellFormed leaves
  | conjunction css => Conjuncts.IsProper leaves css

/-- `Distributes leaves ds css`: conjuncts that say what a disjunction says, and consist of its
parts. -/
structure Distributes (leaves : Leaves) (ds : List Disjunct) (css : Conjuncts) : Prop where
  proper : Conjuncts.IsProper leaves css
  holds : ∀ {D : Type} (S : Structure D) (v : Valuation D),
    Conjuncts.Holds S v css ↔ ∃ d ∈ ds, d.Holds S v
  contains : ∀ p, Conjuncts.Contains p css ↔ ∃ d ∈ ds, d.Contains p

/-- `takeConjunction ds = some (css, others)`: the conjunction that is taken out of a disjunction is
one of the disjuncts, and the others are all others. -/
theorem takeConjunction_perm (h : takeConjunction ds = some (css, others)) :
    ds.Perm (.conjunction css :: others) := by
  fun_induction takeConjunction ds generalizing others with
  | case1 => cases h
  | case2 css' ds =>
    cases h
    exact .refl _
  | case3 φ ds ih =>
    obtain ⟨⟨css', others'⟩, found, same⟩ := Option.map_eq_some_iff.1 h
    cases same
    exact ((ih found).cons _).trans (.swap ..)

/-- `takeConjunction ds = none`: no conjunction is taken out of a disjunction of simple formulas. -/
theorem takeConjunction_eq_none (h : takeConjunction ds = none) :
    ∃ φs : List Formula, ds = φs.map .simple := by
  fun_induction takeConjunction ds with
  | case1 => exact ⟨[], rfl⟩
  | case2 => cases h
  | case3 φ ds ih =>
    obtain ⟨φs, rfl⟩ := ih (Option.map_eq_none_iff.1 h)
    exact ⟨φ :: φs, rfl⟩

/-- `Disjunct.parts` of simple disjuncts are the formulas that they are made of. -/
theorem flatMap_parts_simple (φs : List Formula) :
    (φs.map Disjunct.simple).flatMap Disjunct.parts = φs := by
  rw [List.flatMap_map]
  exact List.flatMap_singleton' φs

/-- `φ ∈ d.parts`: the parts of a disjunct are what it contains. -/
theorem exists_mem_parts {p : Formula → Prop} : (∃ φ ∈ d.parts, p φ) ↔ d.Contains p := by
  cases d with
  | simple φ => simp [Disjunct.parts, Disjunct.Contains]
  | conjunction css =>
    simp only [Disjunct.parts, Disjunct.Contains, Conjuncts.Contains, List.mem_flatten]
    constructor
    · rintro ⟨φ, ⟨c, hc, hφ⟩, h⟩
      exact ⟨c, hc, φ, hφ, h⟩
    · rintro ⟨c, hc, φ, hφ, h⟩
      exact ⟨φ, ⟨c, hc, hφ⟩, h⟩

/-- `refuseQuantifiers ds = .ok ()`: disjuncts are let through exactly if none of them contains a
quantifier. -/
theorem refuseQuantifiers_eq_ok_iff : refuseQuantifiers ds = .ok () ↔
    ∀ d ∈ ds, ¬ d.Contains fun φ => φ.isQuantified = true := by
  unfold refuseQuantifiers
  split
  · next φ found =>
    refine iff_of_false (fun passed => nomatch passed) fun none => ?_
    obtain ⟨d, hd, hφ⟩ := List.mem_flatMap.1 (List.mem_of_find?_eq_some found)
    exact none d hd (exists_mem_parts.1 ⟨φ, hφ, List.find?_some found⟩)
  · next none =>
    refine iff_of_true rfl fun d hd contains => ?_
    obtain ⟨φ, hφ, quantified⟩ := exists_mem_parts.2 contains
    exact List.find?_eq_none.1 none φ (List.mem_flatMap.2 ⟨d, hd, hφ⟩) quantified

/-- Literals and conjunctions of them have no quantifiers as parts. -/
theorem refuseQuantifiers_eq_ok (proper : ∀ d ∈ ds, d.IsProper leaves) :
    refuseQuantifiers ds = .ok () := by
  refine refuseQuantifiers_eq_ok_iff.2 fun d mem contains => ?_
  have literals := proper d mem
  -- Every part of a disjunct is a literal, and so no quantifier.
  have plain : ∀ φ : Formula, φ.isLiteral = true → φ.isQuantified = true → False :=
    fun φ literal quantified => by simp [isQuantified_of_isLiteral literal] at quantified
  cases d with
  | simple φ => exact plain φ literals.1 contains
  | conjunction css =>
    obtain ⟨c, hc, φ, hφ, quantified⟩ := contains
    exact plain φ (literals.literal c hc φ hφ).1 quantified

/-- `d ∈ distributed others c`: the disjuncts of a clause put together with other ones. -/
theorem exists_mem_distributed {p : Disjunct → Prop} {c : List Formula} :
    (∃ d ∈ distributed others c, p d) ↔ (∃ d ∈ others, p d) ∨ ∃ φ ∈ c, p (.simple φ) := by
  simp only [distributed, List.mem_append, List.mem_reverse, List.mem_map]
  constructor
  · rintro ⟨d, mem | ⟨φ, mem, rfl⟩, h⟩
    · exact .inl ⟨d, mem, h⟩
    · exact .inr ⟨φ, mem, h⟩
  · rintro (⟨d, mem, h⟩ | ⟨φ, mem, h⟩)
    · exact ⟨d, .inl mem, h⟩
    · exact ⟨_, .inr ⟨φ, mem, rfl⟩, h⟩

/-- `parts.flatten`: lists of proper conjuncts are proper together, if there are any. -/
theorem isProper_flatten {parts : List Conjuncts} (some : parts ≠ [])
    (proper : ∀ cs ∈ parts, Conjuncts.IsProper leaves cs) :
    Conjuncts.IsProper leaves parts.flatten := by
  refine ⟨?_, ?_, ?_⟩
  · intro none
    obtain ⟨cs, mem⟩ := List.exists_mem_of_ne_nil parts some
    exact (proper cs mem).some (List.flatten_eq_nil_iff.1 none cs mem)
  · intro c mem
    obtain ⟨cs, hcs, hc⟩ := List.mem_flatten.1 mem
    exact (proper cs hcs).clause c hc
  · intro c mem
    obtain ⟨cs, hcs, hc⟩ := List.mem_flatten.1 mem
    exact (proper cs hcs).literal c hc

/-- `parts.flatten`: lists of conjuncts hold together if each of them does. -/
theorem holds_flatten {D : Type} {S : Structure D} {v : Valuation D} {parts : List Conjuncts} :
    Conjuncts.Holds S v parts.flatten ↔ ∀ cs ∈ parts, Conjuncts.Holds S v cs := by
  simp only [Conjuncts.Holds, List.mem_flatten, forall_exists_index, and_imp]
  exact ⟨fun h cs hcs c hc => h c cs hcs hc, fun h c cs hcs hc => h cs hcs c hc⟩

/-- `parts.flatten`: what lists of conjuncts contain is what one of them contains. -/
theorem contains_flatten {p : Formula → Prop} {parts : List Conjuncts} :
    Conjuncts.Contains p parts.flatten ↔ ∃ cs ∈ parts, Conjuncts.Contains p cs := by
  simp only [Conjuncts.Contains, List.mem_flatten]
  constructor
  · rintro ⟨c, ⟨cs, hcs, hc⟩, h⟩
    exact ⟨cs, hcs, c, hc, h⟩
  · rintro ⟨cs, hcs, c, hc, h⟩
    exact ⟨c, ⟨cs, hcs, hc⟩, h⟩

/-- `Distributes leaves (distributed others c) cs`: a conjunction is distributed over the other
disjuncts conjunct by conjunct. -/
theorem distributes_flatten {parts : List Conjuncts} (perm : ds.Perm (.conjunction css :: others))
    (some : css ≠ [])
    (all : List.Forall₂ (fun c cs => Distributes leaves (distributed others c) cs) css parts) :
    Distributes leaves ds parts.flatten := by
  have proper : ∀ cs ∈ parts, Conjuncts.IsProper leaves cs :=
    forall_right_of_forall₂ all fun _ _ spec => spec.proper
  refine ⟨isProper_flatten (ne_nil_of_forall₂ all some) proper, ?_, ?_⟩
  · intro D S v
    calc Conjuncts.Holds S v parts.flatten
      _ ↔ ∀ cs ∈ parts, Conjuncts.Holds S v cs := holds_flatten
      _ ↔ ∀ c ∈ css, ∃ d ∈ distributed others c, d.Holds S v :=
        (forall_mem_iff_of_forall₂ all fun c cs spec => (spec.holds S v).symm).symm
      _ ↔ (∃ d ∈ others, d.Holds S v) ∨ Conjuncts.Holds S v css := by
        simp only [exists_mem_distributed, forall_or_left, Conjuncts.Holds]
        rfl
      _ ↔ ∃ d ∈ ds, d.Holds S v := by
        simp only [perm.mem_iff, List.exists_mem_cons_iff]
        exact or_comm
  · intro p
    calc Conjuncts.Contains p parts.flatten
      _ ↔ ∃ cs ∈ parts, Conjuncts.Contains p cs := contains_flatten
      _ ↔ ∃ c ∈ css, ∃ d ∈ distributed others c, d.Contains p :=
        (exists_mem_iff_of_forall₂ all fun c cs spec => (spec.contains p).symm).symm
      _ ↔ (∃ d ∈ others, d.Contains p) ∨ Conjuncts.Contains p css := by
        -- What the others contain is in each conjunct, of which there is one at least.
        simp only [exists_mem_distributed, Conjuncts.Contains]
        constructor
        · rintro ⟨c, hc, h | h⟩
          · exact .inl h
          · exact .inr ⟨c, hc, h⟩
        · rintro (h | ⟨c, hc, h⟩)
          · obtain ⟨c, hc⟩ := List.exists_mem_of_ne_nil css some
            exact ⟨c, hc, .inl h⟩
          · exact ⟨c, hc, .inr h⟩
      _ ↔ ∃ d ∈ ds, d.Contains p := by
        simp only [perm.mem_iff, List.exists_mem_cons_iff]
        exact or_comm

/-- `distributeDisjuncts ds = .ok css`: literals and conjunctions of them can be distributed over
each other. -/
theorem exists_distributeDisjuncts (some : ds ≠ []) (proper : ∀ d ∈ ds, d.IsProper leaves) :
    ∃ css, distributeDisjuncts ds = .ok css ∧ Distributes leaves ds css := by
  fun_induction distributeDisjuncts ds with
  | case1 ds none =>
    obtain ⟨φs, rfl⟩ := takeConjunction_eq_none none
    rw [flatMap_parts_simple]
    refine ⟨_, rfl, ⟨List.cons_ne_nil _ _, ?_, ?_⟩, ?_, ?_⟩
    · intro c mem
      rw [List.mem_singleton.1 mem]
      simpa using some
    · intro c mem φ hφ
      rw [List.mem_singleton.1 mem] at hφ
      exact proper (.simple φ) (List.mem_map_of_mem hφ)
    · intro D S v
      simp [Conjuncts.Holds, Disjunct.Holds]
    · intro p
      simp [Conjuncts.Contains, Disjunct.Contains]
  | case2 ds css found =>
    obtain rfl := List.perm_singleton.1 (takeConjunction_perm found)
    refine ⟨css, rfl, proper _ List.mem_cons_self, ?_, ?_⟩
    · intro D S v
      simp [Disjunct.Holds]
    · intro p
      simp [Disjunct.Contains]
  | case3 ds css other others found ih =>
    have perm := takeConjunction_perm found
    have properAll : ∀ d ∈ Disjunct.conjunction css :: other :: others, d.IsProper leaves :=
      fun d mem => proper d (perm.mem_iff.2 mem)
    obtain ⟨conjunction, rest⟩ := List.forall_mem_cons.1 properAll
    -- Each conjunct of the conjunction is distributed together with the other disjuncts.
    have each : ∀ c ∈ css, ∃ cs, (do
        refuseQuantifiers (distributed (other :: others) c)
        distributeDisjuncts (distributed (other :: others) c)) = .ok cs ∧
          Distributes leaves (distributed (other :: others) c) cs := by
      intro c hc
      have good : ∀ d ∈ distributed (other :: others) c, d.IsProper leaves := by
        intro d hd
        rcases List.mem_append.1 hd with mem | mem
        · exact rest d (List.mem_reverse.1 mem)
        · obtain ⟨φ, hφ, rfl⟩ := List.mem_map.1 mem
          exact conjunction.literal c hc φ hφ
      have inhabited : distributed (other :: others) c ≠ [] := by simp [distributed]
      obtain ⟨cs, found, spec⟩ := ih c inhabited good
      exact ⟨cs, bind_eq_ok_iff.2 ⟨(), refuseQuantifiers_eq_ok good, found⟩, spec⟩
    obtain ⟨parts, found, all⟩ := exists_inOrder_map each
    exact ⟨parts.flatten, bind_eq_ok_iff.2 ⟨parts, found, rfl⟩,
      distributes_flatten perm conjunction.some all⟩

/-! ## All formulas -/

/-- `Collects collect φ css`: what is collected from a formula is what is collected from the
disjuncts of its conjuncts. -/
def Collects {α : Type} (collect : Formula → List α) (φ : Formula) (css : Conjuncts) : Prop :=
  ∀ a, Conjuncts.Contains (fun ψ => a ∈ collect ψ) css ↔ a ∈ collect φ

/-- `HasConjuncts leaves φ css`: conjuncts that say what a formula says, of the same variables and
with the same predicates. -/
structure HasConjuncts (leaves : Leaves) (φ : Formula) (css : Conjuncts) : Prop where
  proper : Conjuncts.IsProper leaves css
  holds : ∀ {D : Type} (S : Structure D) (v : Valuation D), Conjuncts.Holds S v css ↔ φ.Holds S v
  free : Collects freeOccurrences φ css
  signature : Collects signature φ css

/-- `HasConjuncts leaves φ [[φ]]`: a literal is its only conjunct. -/
theorem hasConjuncts_literal (literal : φ.isLiteral = true) (wellFormed : φ.WellFormed leaves) :
    HasConjuncts leaves φ [[φ]] := by
  refine ⟨⟨List.cons_ne_nil _ _, ?_, ?_⟩, ?_, ?_, ?_⟩
  · simp
  · simpa using ⟨literal, wellFormed⟩
  · simp [Conjuncts.Holds]
  · simp [Collects, Conjuncts.Contains]
  · simp [Collects, Conjuncts.Contains]

/-- `Rewrites φ ψ`: what has the truth and the variables of a formula may be asked for instead. -/
theorem HasConjuncts.of_rewrites (h : HasConjuncts leaves ψ css) (rewrites : Rewrites φ ψ)
    (separated : φ.Separated) : HasConjuncts leaves φ css :=
  ⟨h.proper, fun S v => (h.holds S v).trans (rewrites.holds S v),
    fun x => (h.free x).trans ((rewrites.within separated).free x),
    fun p => (h.signature p).trans (rewrites.signature p)⟩

/-- `d ∈ disjunctsOf css`: what a formula contributes to a disjunction says what the formula
says. -/
theorem exists_mem_disjunctsOf (p : Disjunct → Prop)
    (same : ∀ c : List Formula, p (.conjunction [c]) ↔ ∃ φ ∈ c, p (.simple φ)) :
    (∃ d ∈ disjunctsOf css, p d) ↔ p (.conjunction css) := by
  unfold disjunctsOf
  split
  · next c => simp [same]
  · simp

/-- `d ∈ disjunctsOf css`: what a formula with proper conjuncts contributes to a disjunction is
proper. -/
theorem isProper_of_mem_disjunctsOf (proper : Conjuncts.IsProper leaves css)
    (mem : d ∈ disjunctsOf css) : d.IsProper leaves := by
  unfold disjunctsOf at mem
  split at mem
  · next c =>
    obtain ⟨φ, hφ, rfl⟩ := List.mem_map.1 mem
    exact proper.literal c List.mem_cons_self φ hφ
  · rw [List.mem_singleton.1 mem]
    exact proper

/-- `disjunctsOf css ≠ []`: some disjunct is contributed. -/
theorem disjunctsOf_ne_nil (clause : ∀ c ∈ css, c ≠ []) : disjunctsOf css ≠ [] := by
  unfold disjunctsOf
  split
  · next c =>
    intro none
    exact clause c List.mem_cons_self (List.map_eq_nil_iff.1 none)
  · exact List.cons_ne_nil _ _

/-- `parts.flatMap disjunctsOf`: what several formulas contribute together says what one of them
says. -/
theorem exists_mem_flatMap_disjunctsOf {parts : List Conjuncts} (p : Disjunct → Prop)
    (same : ∀ c : List Formula, p (.conjunction [c]) ↔ ∃ φ ∈ c, p (.simple φ)) :
    (∃ d ∈ parts.flatMap disjunctsOf, p d) ↔ ∃ cs ∈ parts, p (.conjunction cs) := by
  simp only [List.mem_flatMap]
  constructor
  · rintro ⟨d, ⟨cs, hcs, hd⟩, h⟩
    exact ⟨cs, hcs, (exists_mem_disjunctsOf p same).1 ⟨d, hd, h⟩⟩
  · rintro ⟨cs, hcs, h⟩
    obtain ⟨d, hd, h⟩ := (exists_mem_disjunctsOf p same).2 h
    exact ⟨d, ⟨cs, hcs, hd⟩, h⟩

/-- The members of a connective are accepted if there are any. -/
theorem nonemptyMembers_of_ne_nil {α : Type} (op : Connective) {members : List α}
    (some : members ≠ []) : nonemptyMembers op members = .ok members := by
  cases members with
  | nil => exact absurd rfl some
  | cons a as => rfl

/-- `combine op φs = joined op <$> nonemptyMembers op (spliced op φs)`: what is built of formulas is
what is left after splicing, joined, if anything is left. -/
theorem combine_eq (op : Connective) (φs : List Formula) :
    combine op φs = joined op <$> nonemptyMembers op (spliced op φs) := by
  unfold combine
  split
  · next none => rw [none]; rfl
  · next one => rw [one]; rfl
  · next some several =>
    rw [nonemptyMembers_of_ne_nil op some]
    exact congrArg Except.ok (by rw [joined]; exact several)

/-- `combine op φs = .ok (joined op (spliced op φs))`, if something is left after splicing. -/
theorem combine_eq_joined {op : Connective} (some : spliced op φs ≠ []) :
    combine op φs = .ok (joined op (spliced op φs)) := by
  rw [combine_eq, nonemptyMembers_of_ne_nil op some]
  rfl

section Collected

variable {α : Type} {collect : Formula → List α}
  (members : ∀ op φs, collect (.connective op φs) = φs.flatMap collect)

include members

/-- `Collects` for a conjunction: what is collected from it is collected from the conjuncts of its
members. -/
theorem collects_and {parts : List Conjuncts} (all : List.Forall₂ (Collects collect) φs parts) :
    Collects collect (.connective .and φs) parts.flatten := by
  intro a
  rw [contains_flatten, ← exists_mem_iff_of_forall₂ all fun φ cs spec => (spec a).symm, members,
    List.mem_flatMap]

/-- `Collects` for a disjunction: what is collected from it is collected from the conjuncts that its
members are distributed to. -/
theorem collects_or {parts : List Conjuncts}
    (spec : Distributes leaves (parts.flatMap disjunctsOf) css)
    (all : List.Forall₂ (Collects collect) φs parts) :
    Collects collect (.connective .or φs) css := by
  intro a
  rw [spec.contains, members, List.mem_flatMap,
    exists_mem_flatMap_disjunctsOf (Disjunct.Contains fun ψ => a ∈ collect ψ)
      (by simp [Disjunct.Contains, Conjuncts.Contains])]
  exact (exists_mem_iff_of_forall₂ all fun φ cs h => (h a).symm).symm

end Collected

/-- `HasConjuncts leaves (connective .and φs)`: a conjunction has the conjuncts of its members. -/
theorem hasConjuncts_and {parts : List Conjuncts} (some : φs ≠ [])
    (all : List.Forall₂ (HasConjuncts leaves) φs parts) :
    HasConjuncts leaves (.connective .and φs) parts.flatten := by
  have proper : ∀ cs ∈ parts, Conjuncts.IsProper leaves cs :=
    forall_right_of_forall₂ all fun _ _ spec => spec.proper
  refine ⟨isProper_flatten (ne_nil_of_forall₂ all some) proper, ?_,
    collects_and freeOccurrences_connective (all.imp fun _ _ spec => spec.free),
    collects_and signature_connective (all.imp fun _ _ spec => spec.signature)⟩
  intro D S v
  rw [holds_flatten, ← forall_mem_iff_of_forall₂ all fun φ cs spec => (spec.holds S v).symm,
    holds_and_iff]

/-- `HasConjuncts leaves (connective .or φs)`: a disjunction has the conjuncts that its members are
distributed to. -/
theorem exists_hasConjuncts_or {parts : List Conjuncts} (some : φs ≠ [])
    (all : List.Forall₂ (HasConjuncts leaves) φs parts) :
    ∃ css, (do
      let disjuncts ← nonemptyMembers .or (parts.flatMap disjunctsOf)
      distributeDisjuncts disjuncts) = .ok css ∧ HasConjuncts leaves (.connective .or φs) css := by
  have proper : ∀ cs ∈ parts, Conjuncts.IsProper leaves cs :=
    forall_right_of_forall₂ all fun _ _ spec => spec.proper
  -- Each member has a conjunct at least, and so contributes a disjunct.
  have inhabited : parts.flatMap disjunctsOf ≠ [] := by
    intro none
    obtain ⟨cs, mem⟩ := List.exists_mem_of_ne_nil parts (ne_nil_of_forall₂ all some)
    exact disjunctsOf_ne_nil (proper cs mem).clause (List.flatMap_eq_nil_iff.1 none cs mem)
  have good : ∀ d ∈ parts.flatMap disjunctsOf, d.IsProper leaves := by
    intro d mem
    obtain ⟨cs, hcs, hd⟩ := List.mem_flatMap.1 mem
    exact isProper_of_mem_disjunctsOf (proper cs hcs) hd
  obtain ⟨css, found, spec⟩ := exists_distributeDisjuncts inhabited good
  refine ⟨css, bind_eq_ok_iff.2 ⟨_, nonemptyMembers_of_ne_nil .or inhabited, found⟩, spec.proper,
    ?_, collects_or freeOccurrences_connective spec (all.imp fun _ _ h => h.free),
    collects_or signature_connective spec (all.imp fun _ _ h => h.signature)⟩
  intro D S v
  rw [spec.holds, holds_or_iff, exists_mem_flatMap_disjunctsOf (Disjunct.Holds S v)
    (by simp [Disjunct.Holds, Conjuncts.Holds])]
  exact (exists_mem_iff_of_forall₂ all fun φ cs h => (h.holds S v).symm).symm

/-- A formula without quantifiers is none itself. -/
theorem isQuantified_of_quantifierCount (none : φ.quantifierCount = 0) :
    φ.isQuantified = false := by
  cases φ with
  | quantified => simp [quantifierCount] at none
  | _ => rfl

/-- `φ.conjunctsWith settle = .ok css`: formulas without quantifiers and empty connectives have
conjuncts, if `settle` finds those of the negations of compound formulas. -/
theorem exists_conjunctsWith (settle : Formula → Except NormalizationError Conjuncts)
    (settles : leaves.compound → ∀ φ : Formula, φ.Populated leaves → φ.quantifierCount = 0 →
      ∃ css, settle (.not φ) = .ok css ∧ HasConjuncts leaves.literals (.not φ) css)
    (populated : φ.Populated leaves) (none : φ.quantifierCount = 0) :
    ∃ css, φ.conjunctsWith settle = .ok css ∧ HasConjuncts leaves.literals φ css := by
  -- A negation is not taken apart: it is a literal, or it is settled by pushing it down first.
  induction populated with
  | @atom a allowed =>
    exact ⟨_, by rw [conjunctsWith], hasConjuncts_literal rfl (.atom allowed)⟩
  | @not φ allowed body _ =>
    rw [conjunctsWith]
    split
    · next atomic =>
      have literal : (Formula.not φ).WellFormed leaves.literals := by
        cases body with
        | atom named => exact .not (.inl rfl) (.atom named)
        | _ => cases atomic
      exact ⟨_, rfl, hasConjuncts_literal atomic literal⟩
    · next compound =>
      rw [quantifierCount] at none
      exact settles (allowed.resolve_left compound) φ body none
  | @connective op φs some members ih =>
    rw [quantifierCount_connective] at none
    have each : ∀ φ ∈ φs, ∃ css,
        (if φ.isQuantified then .error (.malformed (.quantifierInMatrix φ))
          else φ.conjunctsWith settle) = .ok css ∧ HasConjuncts leaves.literals φ css := by
      intro φ mem
      have free := totalCount_eq_zero_iff.1 none φ mem
      rw [isQuantified_of_quantifierCount free]
      exact ih φ mem free
    obtain ⟨parts, found, all⟩ := exists_inOrder_map each
    rw [conjunctsWith]
    cases op with
    | and =>
      have spec := hasConjuncts_and some all
      exact ⟨parts.flatten, bind_eq_ok_iff.2
        ⟨parts, found, nonemptyMembers_of_ne_nil .and spec.proper.some⟩, spec⟩
    | or =>
      obtain ⟨css, distributed, spec⟩ := exists_hasConjuncts_or some all
      exact ⟨css, bind_eq_ok_iff.2 ⟨parts, found, distributed⟩, spec⟩
  | quantified => simp [quantifierCount] at none

/-- A formula without quantifiers binds nothing. -/
theorem boundVariables_of_quantifierCount (none : φ.quantifierCount = 0) :
    φ.boundVariables = [] := by
  induction φ using induction with
  | atom a => rw [boundVariables_atom]
  | not φ ih => rw [boundVariables_not, ih none]
  | connective op φs ih =>
    rw [quantifierCount_connective, totalCount_eq_zero_iff] at none
    rw [boundVariables_connective, List.flatMap_eq_nil_iff]
    exact fun φ mem => ih φ mem (none φ mem)
  | quantified => simp [quantifierCount] at none

/-- `φ.Separated`: a formula without quantifiers has separated variables. -/
theorem separated_of_quantifierCount (none : φ.quantifierCount = 0) : φ.Separated := by
  have bound := boundVariables_of_quantifierCount none
  exact ⟨by simp [bound], by simp [bound]⟩

/-- `φ.conjuncts = .ok css`: formulas without quantifiers and empty connectives have conjuncts. -/
theorem exists_conjuncts (populated : φ.Populated leaves) (none : φ.quantifierCount = 0) :
    ∃ css, φ.conjuncts = .ok css ∧ HasConjuncts leaves.literals φ css := by
  refine exists_conjunctsWith _ ?_ populated none
  intro compound φ populated none
  obtain ⟨ψ, pushing, rewrites, literal⟩ := exists_pushNegations (.not (.inr compound) populated)
  have count : ψ.quantifierCount = 0 := by
    rw [pushNegations_eq_pushed] at pushing
    rw [quantifierCount_pushed pushing, quantifierCount, none]
  obtain ⟨css, found, spec⟩ := exists_conjunctsWith (fun χ => .ok [[χ]])
    (fun compound => False.elim compound) literal.populated count
  exact ⟨css, bind_eq_ok_iff.2 ⟨ψ, pushing, found⟩,
    spec.of_rewrites rewrites (separated_of_quantifierCount none)⟩

/-! ## The form -/

/-- `joined op φs`: one member stands for itself, as it does in a connective. -/
theorem rewrites_joined (op : Connective) (φs : List Formula) :
    Rewrites (.connective op φs) (joined op φs) := by
  unfold joined
  split
  · exact .of_singleton
  · exact .refl _

/-- `(joined op φs).membersOf op = φs`: members that are not of the kind of the connective are those
of what is joined. -/
theorem membersOf_joined {op : Connective} (flat : ∀ φ ∈ φs, φ.isConnective op = false) :
    (joined op φs).membersOf op = φs := by
  unfold joined
  split
  · next φ => rw [membersOf_of_not (flat φ List.mem_cons_self)]
  · rw [membersOf, if_pos rfl]

/-- `IsPlain css`: proper conjuncts are plain, since a literal is no connective. -/
theorem isPlain_of_isProper (proper : Conjuncts.IsProper leaves css) :
    Conjuncts.IsPlain css := fun c hc φ hφ =>
  isConnective_of_isLiteral (proper.literal c hc φ hφ).1

/-- `joined .or c` is no conjunction, for each of some plain conjuncts `c`. -/
theorem isConnective_joined_or (plain : Conjuncts.IsPlain css) :
    ∀ φ ∈ css.map (joined .or), φ.isConnective .and = false := by
  refine List.forall_mem_map.2 fun c hc => ?_
  unfold joined
  split
  · next φ => exact plain _ hc φ List.mem_cons_self .and
  · rfl

/-- The members of `ofConjuncts css` are `joined .or c`, for the plain conjuncts `c`, and the
members of these are the disjuncts. -/
theorem membersOf_ofConjuncts (plain : Conjuncts.IsPlain css) :
    (ofConjuncts css).membersOf .and = css.map (joined .or) ∧
      ∀ c ∈ css, (joined .or c).membersOf .or = c :=
  ⟨membersOf_joined (isConnective_joined_or plain), fun c hc =>
    membersOf_joined fun φ hφ => plain c hc φ hφ .or⟩

/-- `(ofConjuncts css).Holds S v`: the form of conjuncts holds if they do. -/
theorem holds_ofConjuncts {D : Type} {S : Structure D} {v : Valuation D} :
    (ofConjuncts css).Holds S v ↔ Conjuncts.Holds S v css := by
  rw [ofConjuncts, (rewrites_joined .and _).holds, holds_and_iff, List.forall_mem_map]
  refine forall₂_congr ?_
  intro c _
  rw [(rewrites_joined .or c).holds, holds_or_iff]

section Joined

variable {α : Type} {collect : Formula → List α}
  (members : ∀ op φs, collect (.connective op φs) = φs.flatMap collect)

include members

/-- What is collected from joined members. -/
theorem collect_joined (op : Connective) (φs : List Formula) :
    collect (joined op φs) = φs.flatMap collect := by
  unfold joined
  split
  · rw [List.flatMap_singleton]
  · rw [members]

/-- `a ∈ collect (ofConjuncts css)`: what is collected from the form of conjuncts is collected from
some disjunct. -/
theorem mem_collect_ofConjuncts {a : α} :
    a ∈ collect (ofConjuncts css) ↔ Conjuncts.Contains (fun ψ => a ∈ collect ψ) css := by
  simp only [ofConjuncts, collect_joined members, List.flatMap_map, List.mem_flatMap,
    Conjuncts.Contains]

end Joined

/-- The number of quantifiers in joined members. -/
theorem quantifierCount_joined (op : Connective) (φs : List Formula) :
    (joined op φs).quantifierCount = totalCount φs := by
  unfold joined
  split
  · rfl
  · rw [quantifierCount_connective]

/-- `(ofConjuncts css).quantifierCount = 0`: the form of proper conjuncts has no quantifiers. -/
theorem quantifierCount_ofConjuncts (proper : Conjuncts.IsProper leaves css) :
    (ofConjuncts css).quantifierCount = 0 := by
  rw [ofConjuncts, quantifierCount_joined, totalCount_eq_zero_iff]
  intro ψ mem
  obtain ⟨c, hc, rfl⟩ := List.mem_map.1 mem
  rw [quantifierCount_joined, totalCount_eq_zero_iff]
  exact fun φ hφ => quantifierCount_of_isLiteral (proper.literal c hc φ hφ).1

/-- `Rewrites φ (ofConjuncts css)`: the form of a formula may replace it, if no variable is bound in
the formula. -/
theorem HasConjuncts.rewrites (h : HasConjuncts leaves φ css) (none : φ.quantifierCount = 0) :
    Rewrites φ (ofConjuncts css) := by
  have bound := boundVariables_of_quantifierCount none
  have unbound := boundVariables_of_quantifierCount (quantifierCount_ofConjuncts h.proper)
  refine ⟨fun S v => holds_ofConjuncts.trans (h.holds S v),
    fun p => (mem_collect_ofConjuncts signature_connective).trans (h.signature p),
    fun _ => ⟨fun x => ?_, ?_, ?_⟩⟩
  · exact (mem_collect_ofConjuncts freeOccurrences_connective).trans (h.free x)
  · rw [bound, unbound]
    exact fun _ => id
  · rw [unbound]
    exact List.nodup_nil

/-- **Conjunctive normal forms.** `φ.conjunctiveForm` succeeds on formulas without quantifiers and
empty connectives, and the form may replace them. -/
theorem exists_conjunctiveForm (populated : φ.Populated leaves) (none : φ.quantifierCount = 0) :
    ∃ css, φ.conjunctiveForm = .ok (ofConjuncts css) ∧ Conjuncts.IsProper leaves.literals css ∧
      Rewrites φ (ofConjuncts css) := by
  obtain ⟨css, found, spec⟩ := exists_conjuncts populated none
  exact ⟨css, map_eq_ok_iff.2 ⟨css, found, rfl⟩, spec.proper, spec.rewrites none⟩

end Formula

end ClausalForm
