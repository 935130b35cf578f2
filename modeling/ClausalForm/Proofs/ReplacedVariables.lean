import ClausalForm.Proofs.AlphaElimination
import ClausalForm.Proofs.Prenexing
import Mathlib.Data.List.Chain

/-! # Replaced variables

Replacing every variable of a formula, bound or free, keeps its shape. Formulas that are alike up to
the names of their bound variables differ by such a replacement, so that the names of the bindings
are all that tells them apart.

* **`Formula.replace`**: the replacement.
* **`Formula.AlphaEq.eq_replace`**: formulas that are alike differ by a replacement.
* **`Formula.AlphaEq.eq_of_boundVariables`**: formulas that are alike and bind the same names are
  equal.
* **`Formula.blocks_replace`**, **`Formula.matrix_replace`**, **`Formula.clauses_replace`**: what
  the replacement does to the parts of a formula in clausal form.
* **`Formula.IsNormal.replace`**: what it makes of a normal form. -/

namespace ClausalForm

/-- `(ofPlaces xs (xs.map f)).rename x = f x`: where each place has the new name of its variable, a
variable gets its new name. -/
theorem Renaming.rename_ofPlaces_map (f : String → String) {x : String} {xs : List String}
    (mem : x ∈ xs) : (ofPlaces xs (xs.map f)).rename x = f x := by
  have length : xs.length ≤ (xs.map f).length := Nat.le_of_eq (List.length_map f).symm
  have pair := mem_ofPlaces.1 (mem_of_mem_fst ((mem_fst_ofPlaces length).2 mem))
  have pairs : xs.zip (xs.map f) = xs.map fun y => (y, f y) := by
    simpa using List.zip_map' (f := id) (g := f) (l := xs)
  rw [pairs, List.mem_map] at pair
  obtain ⟨y, _, same⟩ := pair
  obtain ⟨rfl, renamed⟩ := Prod.mk.inj same
  exact renamed.symm

/-! ## Atoms -/

/-- What the replacement does depends on the variables of the atom only. -/
theorem Atom.rename_congr {f g : String → String} {a : Atom}
    (agree : ∀ x ∈ a.occurrences, f x = g x) : a.rename f = a.rename g := by
  have twice := Atom.rename_rename (f := id) (g := f) (h := g) (a := a) agree
  rwa [Atom.rename_id] at twice

/-! ## Clauses and quantifiers -/

/-- `l.replace f`: the literal with its variables replaced. -/
def Literal.replace (f : String → String) (l : Literal) : Literal :=
  { l with atom := l.atom.rename f }

/-- `c.replace f`: the clause with the variables of its literals replaced. -/
def Clause.replace (f : String → String) (c : Clause) : Clause := ⟨c.literals.map (.replace f)⟩

/-- `b.replace f`: the quantifier with other variables. -/
def Block.replace (f : String → String) (b : Block) : Block := { b with bound := b.bound.map f }

namespace Formula

variable {f : String → String} {m : Renaming} {op : Connective} {φ ψ χ : Formula}

/-! ## The replacement -/

/-- `φ.replace f`: the formula with every variable replaced, bound or free. -/
def replace (f : String → String) : Formula → Formula
  | .atom a => .atom (a.rename f)
  | .not φ => .not (φ.replace f)
  | .connective op φs => .connective op (φs.map (replace f))
  | .quantified q xs φ => .quantified q (xs.map f) (φ.replace f)

/-- `φ.replace id = φ`: replacing every variable by itself changes nothing. -/
theorem replace_id (φ : Formula) : φ.replace id = φ := by
  induction φ using induction with
  | atom a => rw [replace, Atom.rename_id]
  | not φ ih => rw [replace, ih]
  | connective op φs ih => rw [replace, List.map_congr_left ih, List.map_id']
  | quantified q xs φ ih => rw [replace, ih, List.map_id]

namespace AlphaEq

/-- The bindings of members that are alike, one member after the other. -/
theorem forall₂_boundVariables {φs ψs : List Formula} (alike : List.Forall₂ (AlphaEq m) φs ψs)
    (bound : ψs.flatMap boundVariables = (φs.flatMap boundVariables).map f) :
    List.Forall₂ (fun φ ψ => ψ.boundVariables = φ.boundVariables.map f) φs ψs := by
  induction alike with
  | nil => exact .nil
  | cons first _ ih =>
    rw [List.flatMap_cons, List.flatMap_cons, List.map_append] at bound
    obtain ⟨here, rest⟩ :=
      List.append_inj bound (by rw [List.length_map, first.length_boundVariables])
    exact .cons here (ih rest)

/-- A formula like `φ` is `φ` with its variables replaced, if the bindings and the free variables
have the new names that it gives them. -/
theorem eq_replace (h : AlphaEq m φ ψ) (free : ∀ x ∈ φ.freeOccurrences, m.rename x = f x)
    (bound : ψ.boundVariables = φ.boundVariables.map f) : ψ = φ.replace f := by
  induction h with
  | atom _ =>
    rw [freeOccurrences_atom] at free
    rw [replace, Atom.rename_congr free]
  | not _ ih =>
    rw [freeOccurrences_not] at free
    rw [boundVariables_not, boundVariables_not] at bound
    rw [replace, ih free bound]
  | @connective m op φs ψs length members ih =>
    rw [freeOccurrences_connective] at free
    rw [boundVariables_connective, boundVariables_connective] at bound
    have each := forall₂_boundVariables (forall₂_of_zip length members) bound
    have same : List.Forall₂ (fun φ ψ => ψ = φ.replace f) φs ψs :=
      forall₂_of_zip length fun p mem =>
        ih p mem (fun x hx => free x (List.mem_flatMap.2 ⟨p.1, (List.of_mem_zip mem).1, hx⟩))
          ((List.forall₂_iff_zip.1 each).2 mem)
    rw [replace, ← map_eq_of_forall₂ (g := id) same, List.map_id]
  | @quantified m q xs ys φ ψ length _ ih =>
    rw [boundVariables_quantified, boundVariables_quantified, List.map_append] at bound
    -- The variables of the quantifier come first among those that are bound.
    obtain ⟨rfl, inner⟩ := List.append_inj bound (by rw [List.length_map, length])
    rw [replace, ih ?_ inner]
    intro x mem
    by_cases inside : x ∈ xs
    · rw [Renaming.rename_inside length inside, Renaming.rename_ofPlaces_map f inside]
    · rw [Renaming.rename_outside length inside]
      exact free x (mem_freeOccurrences_quantified.2 ⟨mem, inside⟩)

/-- `ψ = φ`: formulas that are alike and bind the same names are equal. -/
theorem eq_of_boundVariables (h : AlphaEq [] φ ψ) (same : ψ.boundVariables = φ.boundVariables) :
    ψ = φ := by
  rw [← φ.replace_id]
  exact h.eq_replace (fun _ _ => rfl) (by rw [same, List.map_id])

end AlphaEq

/-! ## Quantifiers in front and what they enclose -/

/-- `(φ.replace f).blocks`: the quantifiers in front bind the new variables. -/
theorem blocks_replace (f : String → String) (φ : Formula) :
    (φ.replace f).blocks = φ.blocks.map (Block.replace f) := by
  induction φ using induction with
  | quantified q xs φ ih => rw [replace, blocks, blocks, ih]; rfl
  | _ => simp [replace, blocks]

/-- `(φ.replace f).matrix`: what the quantifiers in front enclose is replaced. -/
theorem matrix_replace (f : String → String) (φ : Formula) :
    (φ.replace f).matrix = φ.matrix.replace f := by
  induction φ using induction with
  | quantified q xs φ ih => rw [replace, matrix, matrix, ih]
  | _ => simp [replace, matrix]

/-- The members of the new formula are those of the formula, replaced. -/
theorem membersOf_replace (f : String → String) (op : Connective) (φ : Formula) :
    (φ.replace f).membersOf op = (φ.membersOf op).map (replace f) := by
  cases φ with
  | connective op' φs =>
    rw [replace, membersOf, membersOf]
    split
    · rfl
    · rw [List.map_singleton, replace]
  | _ => simp [replace, membersOf]

/-- The new formula is a literal if the formula is one. -/
theorem ofFormula?_replace (f : String → String) (φ : Formula) :
    Literal.ofFormula? (φ.replace f) = (Literal.ofFormula? φ).map (Literal.replace f) := by
  cases φ with
  | not φ => cases φ <;> simp [replace, Literal.ofFormula?, Literal.replace]
  | _ => simp [replace, Literal.ofFormula?, Literal.replace]

/-- `(φ.replace f).isClausal`: the new formula is in clausal form if the formula is. -/
theorem isClausal_replace (f : String → String) (φ : Formula) :
    (φ.replace f).isClausal = φ.isClausal := by
  have literal : ∀ ψ : Formula, (ψ.replace f).isFunctionFreeLiteral = ψ.isFunctionFreeLiteral := by
    intro ψ
    rw [isFunctionFreeLiteral, ofFormula?_replace, Option.any_map, isFunctionFreeLiteral]
    congr 1
    funext l
    simp only [Literal.isFunctionFree, Literal.replace, Atom.hasFunctions_rename]
  simp only [isClausal, matrix_replace, membersOf_replace, List.all_map, Function.comp_def, literal]

/-- `(φ.replace f).clauses`: the clauses of the new formula are those of the formula, replaced one
by one. -/
theorem clauses_replace {cs : List Clause} (f : String → String) (h : φ.clauses = .ok cs) :
    (φ.replace f).clauses = .ok (cs.map (Clause.replace f)) := by
  obtain ⟨clausal, rfl⟩ := clauses_eq_ok_iff.1 h
  refine clauses_eq_ok_iff.2 ⟨(isClausal_replace f φ).trans clausal, ?_⟩
  simp only [matrix_replace, membersOf_replace, List.map_map, Function.comp_def, Clause.replace,
    List.filterMap_map, ofFormula?_replace, List.map_filterMap]

/-! ## Normal forms -/

/-- The new formula of joined members joins the new members. -/
theorem replace_joined (f : String → String) (op : Connective) (φs : List Formula) :
    (joined op φs).replace f = joined op (φs.map (replace f)) := by
  match φs with
  | [] => simp [joined, replace]
  | [φ] => simp [joined]
  | φ :: ψ :: φs => simp [joined, replace]

/-- `(ofConjuncts css).replace f`: the new formula of a conjunctive form is the form of the new
literals. -/
theorem replace_ofConjuncts (f : String → String) (css : Conjuncts) :
    (ofConjuncts css).replace f = ofConjuncts (css.map (List.map (replace f))) := by
  simp only [ofConjuncts, replace_joined, List.map_map, Function.comp_def]

/-- The new formula of a literal is a literal. -/
theorem isLiteral_replace (f : String → String) (φ : Formula) :
    (φ.replace f).isLiteral = φ.isLiteral := by
  cases φ with
  | not φ => cases φ <;> simp [replace, isLiteral, isAtom]
  | _ => simp [replace, isLiteral]

/-- A literal stays well-formed when its variables are replaced. -/
theorem WellFormed.replace_literal {leaves : Leaves} (h : φ.WellFormed leaves)
    (literal : φ.isLiteral = true) (f : String → String) : (φ.replace f).WellFormed leaves := by
  cases h with
  | atom allowed =>
    rw [replace]
    exact .atom (leaves.rename f allowed)
  | not _ body =>
    cases body with
    | atom allowed =>
      rw [replace, replace]
      exact .not (.inl rfl) (.atom (leaves.rename f allowed))
    | _ => cases literal
  | _ => cases literal

/-- `IsNormal leaves (φ.replace f)`: a normal form stays one when its variables are replaced, if it
stays well-formed. -/
theorem IsNormal.replace {leaves : Leaves} (h : IsNormal leaves φ) (f : String → String)
    (wellFormed : (φ.replace f).WellFormed leaves) : IsNormal leaves (φ.replace f) := by
  obtain ⟨css, form, proper⟩ := h.proper
  refine ⟨wellFormed.blocks_matrix.1, ?_, css.map (List.map (Formula.replace f)), ?_, ?_, ?_, ?_⟩
  · rw [blocks_replace, List.isChain_map]
    exact h.alternating
  · rw [matrix_replace, form, replace_ofConjuncts]
  · simpa using proper.some
  · refine List.forall_mem_map.2 fun c mem => ?_
    simpa using proper.clause c mem
  · refine List.forall_mem_map.2 fun c mem => List.forall_mem_map.2 fun ψ hψ => ?_
    obtain ⟨literal, wellFormed⟩ := proper.literal c mem ψ hψ
    exact ⟨by rwa [isLiteral_replace], wellFormed.replace_literal literal f⟩

end Formula

end ClausalForm
