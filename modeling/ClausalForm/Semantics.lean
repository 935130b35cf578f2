import ClausalForm.Formula.Variables

/-! # Truth of formulas

What a formula says about a structure: a domain with a relation for each predicate and a function
for each function symbol. A name may be used with any number of arguments.

* **`Structure`**, **`Valuation`**: what names and variables stand for.
* **`Term.value`**, **`Formula.Holds`**: the value of a term and the truth of a formula.
* **`Formula.Equivalent`**: the same truth in every structure with a non-empty domain.

`Formula.holds_congr` says that truth depends on the free variables only. -/

namespace ClausalForm

/-- A structure over a domain `D`: a relation for each predicate and a function for each function
symbol, on argument lists of any length. -/
structure Structure (D : Type) where
  relation : String → List D → Prop
  function : String → List D → D

/-- An element of the domain `D` for each variable. -/
abbrev Valuation (D : Type) := String → D

/-- Two valuations give the same elements to all variables except those in `xs`. -/
def Valuation.AgreesOutside {D : Type} (xs : List String) (v w : Valuation D) : Prop :=
  ∀ x, x ∉ xs → v x = w x

/-- `op.Joins ps`: truth of a connective whose members have the truth of `ps`. -/
def Connective.Joins : Connective → List Prop → Prop
  | and, ps => ∀ p ∈ ps, p
  | or, ps => ∃ p ∈ ps, p

/-- `q.Ranges among p`: a quantifier over the elements with the property `among`, of which it says
`p`. -/
def Quantifier.Ranges {α : Type} : Quantifier → (α → Prop) → (α → Prop) → Prop
  | universal, among, p => ∀ a, among a → p a
  | existential, among, p => ∃ a, among a ∧ p a

variable {D : Type}

/-- `t.value S v`: the value of a term in a structure, under a valuation. -/
def Term.value (S : Structure D) (v : Valuation D) : Term → D
  | .var x => v x
  | .app f ts => S.function f (ts.map (value S v))

/-- `a.Holds S v`: the truth of an atom. -/
def Atom.Holds (S : Structure D) (v : Valuation D) (a : Atom) : Prop :=
  S.relation a.predicate (a.args.map (Term.value S v))

/-- **Truth of a formula.** `φ.Holds S v` in a structure `S`, under a valuation `v`. A quantifier
ranges over the valuations that differ from `v` at most in the variables that it binds. -/
def Formula.Holds (S : Structure D) (v : Valuation D) : Formula → Prop
  | .atom a => a.Holds S v
  | .not φ => ¬ φ.Holds S v
  | .connective op φs => op.Joins (φs.map fun φ => φ.Holds S v)
  | .quantified q xs φ => q.Ranges (v.AgreesOutside xs) fun w => φ.Holds S w

/-- `φ.Equivalent ψ`: two formulas have the same truth in every structure with a non-empty domain,
under every valuation. -/
def Formula.Equivalent (φ ψ : Formula) : Prop :=
  ∀ (D : Type) [Nonempty D] (S : Structure D) (v : Valuation D), φ.Holds S v ↔ ψ.Holds S v

/-! ## What truth depends on -/

/-- `t.value` depends on the values of the variables of `t` only. -/
theorem Term.value_congr (S : Structure D) {v w : Valuation D} (t : Term)
    (agree : ∀ x ∈ t.occurrences, v x = w x) : t.value S v = t.value S w := by
  match t with
  | .var x => simpa [value] using agree x (by simp [occurrences])
  | .app f ts =>
    simp only [value]
    congr 1
    exact List.map_congr_left fun t mem =>
      value_congr S t fun x hx => agree x (by simpa [occurrences] using ⟨t, mem, hx⟩)

/-- `a.Holds` depends on the values of the variables of `a` only. -/
theorem Atom.holds_congr (S : Structure D) {v w : Valuation D} (a : Atom)
    (agree : ∀ x ∈ a.occurrences, v x = w x) : a.Holds S v ↔ a.Holds S w := by
  have same : a.args.map (Term.value S v) = a.args.map (Term.value S w) :=
    List.map_congr_left fun t mem =>
      t.value_congr S fun x hx => agree x (by simpa [occurrences] using ⟨t, mem, hx⟩)
  rw [Holds, Holds, same]

/-- `q.Ranges among p`: what is ranged over may be exchanged for something else, if each side has
something like what the other side has. -/
theorem Quantifier.ranges_congr {α β : Type} (q : Quantifier) {among p : α → Prop}
    {among' p' : β → Prop} (left : ∀ a, among a → ∃ b, among' b ∧ (p a ↔ p' b))
    (right : ∀ b, among' b → ∃ a, among a ∧ (p a ↔ p' b)) :
    q.Ranges among p ↔ q.Ranges among' p' := by
  cases q with
  | universal =>
    constructor
    · intro h b hb
      obtain ⟨a, ha, same⟩ := right b hb
      exact same.1 (h a ha)
    · intro h a ha
      obtain ⟨b, hb, same⟩ := left a ha
      exact same.2 (h b hb)
  | existential =>
    constructor
    · rintro ⟨a, ha, hp⟩
      obtain ⟨b, hb, same⟩ := left a ha
      exact ⟨b, hb, same.1 hp⟩
    · rintro ⟨b, hb, hp⟩
      obtain ⟨a, ha, same⟩ := right b hb
      exact ⟨a, ha, same.2 hp⟩

/-- `φ.Holds` depends on the values of the free variables of `φ` only. -/
theorem Formula.holds_congr (S : Structure D) (φ : Formula) {v w : Valuation D}
    (agree : ∀ x ∈ φ.freeVariables, v x = w x) : φ.Holds S v ↔ φ.Holds S w := by
  simp only [freeVariables, mem_distinct] at agree
  induction φ using induction generalizing v w with
  | atom a =>
    simp only [freeOccurrences] at agree
    simpa only [Holds] using a.holds_congr S agree
  | not φ ih =>
    simp only [freeOccurrences] at agree
    simp only [Holds, ih agree]
  | connective op φs ih =>
    have same : (φs.map fun φ => φ.Holds S v) = φs.map fun φ => φ.Holds S w :=
      List.map_congr_left fun φ mem => propext <| ih φ mem fun x hx =>
        agree x (by simpa [freeOccurrences] using ⟨φ, mem, hx⟩)
    simp only [Holds, same]
  | quantified q xs φ ih =>
    simp only [freeOccurrences, List.mem_filter, List.contains_eq_mem, Bool.not_eq_true',
      decide_eq_false_iff_not, and_imp] at agree
    -- The values inside `xs` are taken from one valuation, the others from the outer one.
    have exchange : ∀ v w : Valuation D,
        (∀ x ∈ φ.freeOccurrences, x ∉ xs → v x = w x) → ∀ v', v.AgreesOutside xs v' →
          ∃ w', w.AgreesOutside xs w' ∧ (φ.Holds S v' ↔ φ.Holds S w') := by
      intro v w agree v' outside
      refine ⟨fun x => if x ∈ xs then v' x else w x, fun x hx => by simp [hx], ih fun x hx => ?_⟩
      by_cases inside : x ∈ xs
      · simp [inside]
      · simp [inside, ← outside x inside, agree x hx inside]
    simp only [Holds]
    refine q.ranges_congr (exchange v w agree) fun w' outside => ?_
    obtain ⟨v', outside', same⟩ :=
      exchange w v (fun x hx inside => (agree x hx inside).symm) w' outside
    exact ⟨v', outside', same.symm⟩

end ClausalForm
