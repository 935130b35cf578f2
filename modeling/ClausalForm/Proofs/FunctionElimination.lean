import ClausalForm.Proofs.Flattening
import ClausalForm.Proofs.Signature
import ClausalForm.Proofs.Threading

/-! # Elimination of functions

Eliminating the functions of a well-formed formula always succeeds. The result says the same
wherever each predicate that replaces a function is its graph.

* **`Structure.IsGraph`**: a predicate is the graph of a function.
* **`Definition.guarded`**: a formula that holds if the fresh variables have their values.
* **`Formula.Eliminated`**: a formula without functions that says what another one says.
* **`Formula.ensures_eliminateFunctions`**: every formula has one, with a fresh variable for each
  application. -/

namespace ClausalForm

variable {D : Type} {S : Structure D} {v w : Valuation D}

/-! ## Graphs of functions -/

/-- The predicate named like the function `f` is the graph of `f` at `n` arguments. -/
def Structure.IsGraph (S : Structure D) (f : String) (n : Nat) : Prop :=
  ∀ ds : List D, ds.length = n → ∀ d, S.relation f (ds ++ [d]) ↔ S.function f ds = d

/-! ## Leaves -/

/-- `Leaves.naming allowed`: every predicate and every function has a name that is allowed. -/
def Leaves.naming (allowed : String → Prop) : Leaves where
  atom a := allowed a.predicate ∧ ∀ p ∈ a.applications, allowed p.1
  compound := True
  rename f h := by rwa [Atom.applications_rename]

/-- `Leaves.functionFree allowed`: every predicate has a name that is allowed, and there are no
functions. -/
def Leaves.functionFree (allowed : String → Prop) : Leaves where
  atom a := allowed a.predicate ∧ a.hasFunctions = false
  compound := True
  rename f h := by
    rw [Atom.hasFunctions_eq_false_iff, Atom.applications_rename, ← Atom.hasFunctions_eq_false_iff]
    exact h

/-! ## Literals -/

namespace Literal

/-- A literal says that its atom holds, or that it does not. -/
theorem holds_toFormula_congr {a b : Atom} (positive : Bool) (same : a.Holds S v ↔ b.Holds S w) :
    (toFormula ⟨a, positive⟩).Holds S v ↔ (toFormula ⟨b, positive⟩).Holds S w := by
  cases positive with
  | true => simpa only [toFormula, if_true, Formula.Holds] using same
  | false => simpa [toFormula, Formula.Holds] using not_congr same

/-- `l.toFormula.freeOccurrences`: a literal has the variables of its atom. -/
theorem freeOccurrences_toFormula (l : Literal) :
    l.toFormula.freeOccurrences = l.atom.occurrences := by
  obtain ⟨a, positive⟩ := l
  cases positive <;> simp [toFormula]

/-- `l.toFormula.boundVariables = []`: a literal binds nothing. -/
theorem boundVariables_toFormula (l : Literal) : l.toFormula.boundVariables = [] := by
  obtain ⟨a, positive⟩ := l
  cases positive <;> simp [toFormula]

/-- `l.toFormula.signature`: a literal uses the predicate of its atom. -/
theorem signature_toFormula (l : Literal) : l.toFormula.signature = [l.atom.symbol] := by
  obtain ⟨a, positive⟩ := l
  cases positive <;> simp [toFormula]

/-- A literal is no connective. -/
theorem isConnective_toFormula (l : Literal) (op : Connective) :
    l.toFormula.isConnective op = false := by
  obtain ⟨a, positive⟩ := l
  cases positive <;> rfl

/-- `l.toFormula.WellFormed leaves`: a literal is well-formed if its atom may be used. -/
theorem wellFormed_toFormula {leaves : Leaves} {l : Literal} (allowed : leaves.atom l.atom) :
    l.toFormula.WellFormed leaves := by
  obtain ⟨a, positive⟩ := l
  cases positive with
  | true => exact .atom allowed
  | false => exact .not (.inl rfl) (.atom allowed)

end Literal

/-! ## Definitions as a premise -/

/-- `graphSymbol p`: the predicate that takes the place of a function, with one argument more, for
the value. -/
def graphSymbol (p : String × Nat) : String × Nat := (p.1, p.2 + 1)

namespace Definition

/-- `d.toFormula.Holds S v ↔ d.Holds S v`: where predicates are graphs, the atom of a definition
says that the definition holds. -/
theorem holds_toFormula {d : Definition} (graph : S.IsGraph d.function d.args.length) :
    d.toFormula.Holds S v ↔ d.Holds S v := by
  rw [toFormula, Formula.Holds, Atom.Holds, List.map_append, List.map_singleton, Term.value]
  exact graph _ (List.length_map _) _

/-- `d.toFormula.freeOccurrences`: the atom of a definition speaks of its variables. -/
theorem freeOccurrences_toFormula (d : Definition) :
    d.toFormula.freeOccurrences = d.args.flatMap Term.occurrences ++ [d.value] := by
  rw [toFormula, Formula.freeOccurrences_atom, Atom.occurrences, List.flatMap_append,
    List.flatMap_singleton, Term.occurrences]

/-- `(conjunction ds).Holds S v`: the conjunction of definitions holds if all of their atoms do. -/
theorem holds_conjunction (ds : List Definition) :
    (conjunction ds).Holds S v ↔ ∀ d ∈ ds, d.toFormula.Holds S v := by
  unfold conjunction
  split
  · rw [List.forall_mem_singleton]
  · rw [Formula.holds_and_iff, List.forall_mem_map]

/-- `collect (conjunction ds)`: what is collected from the conjunction of definitions. -/
theorem collect_conjunction {α : Type} {collect : Formula → List α}
    (members : ∀ op φs, collect (.connective op φs) = φs.flatMap collect) (ds : List Definition) :
    collect (conjunction ds) = ds.flatMap fun d => collect d.toFormula := by
  unfold conjunction
  split
  · rw [List.flatMap_singleton]
  · rw [members, List.flatMap_map]

/-- What the conjunction of definitions speaks of. -/
theorem freeOccurrences_conjunction (ds : List Definition) :
    (conjunction ds).freeOccurrences = ds.flatMap fun d => d.toFormula.freeOccurrences :=
  collect_conjunction Formula.freeOccurrences_connective ds

/-- The conjunction of definitions binds nothing. -/
theorem boundVariables_conjunction (ds : List Definition) :
    (conjunction ds).boundVariables = [] := by
  rw [collect_conjunction Formula.boundVariables_connective]
  exact List.flatMap_eq_nil_iff.2 fun d _ => Formula.boundVariables_atom _

/-- `d.toFormula.signature`: the atom of a definition uses the predicate that takes the place of its
function. -/
theorem signature_toFormula (d : Definition) :
    d.toFormula.signature = [graphSymbol d.application] := by
  rw [toFormula, Formula.signature_atom, Atom.symbol, graphSymbol, application, List.length_append,
    List.length_singleton]

/-- The predicates that the conjunction of definitions uses. -/
theorem signature_conjunction (ds : List Definition) :
    (conjunction ds).signature = (ds.map application).map graphSymbol := by
  rw [collect_conjunction Formula.signature_connective, List.map_map, List.map_eq_flatMap]
  exact List.flatMap_congr fun d _ => signature_toFormula d

/-- `(conjunction ds).WellFormed leaves`: the conjunction of some definitions is well-formed if
their atoms are. -/
theorem wellFormed_conjunction {leaves : Leaves} {ds : List Definition} (some : ds ≠ [])
    (each : ∀ d ∈ ds, d.toFormula.WellFormed leaves) : (conjunction ds).WellFormed leaves := by
  unfold conjunction
  split
  · exact each _ List.mem_cons_self
  · next several =>
    refine .connective ?_ (List.forall_mem_map.2 fun _ _ => rfl) (List.forall_mem_map.2 each)
    rw [List.length_map]
    exact Formula.two_le_length some several

/-- The formula `φ`, if the fresh variables have the values that they stand for. -/
def guarded (ds : List Definition) (φ : Formula) : Formula :=
  .quantified .universal (ds.map value) (.connective .or [.not (conjunction ds), φ])

/-- `(guarded ds φ).Holds S v`: a guarded formula holds if the formula holds whenever the
definitions do. -/
theorem holds_guarded (ds : List Definition) (φ : Formula) :
    (guarded ds φ).Holds S v ↔ ∀ w, v.AgreesOutside (ds.map value) w →
      (∀ d ∈ ds, d.toFormula.Holds S w) → φ.Holds S w := by
  have body : ∀ w : Valuation D, (Formula.connective .or [.not (conjunction ds), φ]).Holds S w ↔
      ((∀ d ∈ ds, d.toFormula.Holds S w) → φ.Holds S w) := by
    intro w
    rw [Formula.holds_or_iff, List.exists_mem_cons_iff, List.exists_mem_cons_iff, Formula.Holds,
      holds_conjunction, imp_iff_not_or]
    simp
  rw [guarded, Formula.Holds]
  exact forall_congr' fun w => imp_congr Iff.rfl (body w)

end Definition

namespace Formula

variable {allowed : String → Prop} {s t u : FreshSupply} {φ ψ : Formula}
  {bound bound' more more' : List String} {n k : Nat}

/-! ## What elimination achieves -/

/-- `φ.applications`: the applications of functions in a formula, each function with its number of
arguments. -/
def applications : Formula → List (String × Nat)
  | .atom a => a.applications
  | .not φ => φ.applications
  | .connective _ φs => φs.flatMap applications
  | .quantified _ _ φ => φ.applications

/-- The applications in a literal are those in its atom. -/
theorem applications_toFormula (l : Literal) : l.toFormula.applications = l.atom.applications := by
  obtain ⟨a, positive⟩ := l
  cases positive <;> simp [Literal.toFormula, applications]

/-- `ψ` is without functions and says what `φ` says, of the same variables. It uses the predicates
of `φ` and those that take the place of functions. -/
structure Eliminated (allowed : String → Prop) (φ ψ : Formula) : Prop where
  wellFormed : ψ.WellFormed (.functionFree allowed)
  free : ∀ x, x ∈ ψ.freeOccurrences ↔ x ∈ φ.freeOccurrences
  signature : ∀ p, p ∈ ψ.signature ↔ p ∈ φ.signature ∨ p ∈ φ.applications.map graphSymbol
  holds : ∀ {D : Type} (S : Structure D) (v : Valuation D),
    (∀ p ∈ φ.applications, S.IsGraph p.1 p.2) → (ψ.Holds S v ↔ φ.Holds S v)

/-- First more of one list, then more of another one. -/
theorem perm_append_append {names names' : List String} (first : bound'.Perm (bound ++ names))
    (second : more'.Perm (more ++ names')) :
    (bound' ++ more').Perm (bound ++ more ++ (names ++ names')) := by
  refine (first.append second).trans ?_
  rw [List.append_assoc, List.append_assoc]
  exact .append_left _ (List.perm_append_comm_assoc ..)

/-- From `s` to `t` the supply hands out `n` names, and these are bound besides `bound`. -/
def BindsMore (s : FreshSupply) (n : Nat) (bound bound' : List String) (t : FreshSupply) : Prop :=
  ∃ names, s.Issues names t ∧ names.length = n ∧ bound'.Perm (bound ++ names)

namespace BindsMore

/-- `BindsMore s 0 bound bound s`: nothing more is bound. -/
theorem refl (s : FreshSupply) (bound : List String) : BindsMore s 0 bound bound s :=
  ⟨[], .refl s, rfl, by rw [List.append_nil]⟩

/-- `BindsMore s (n + k)`: first more of one list is bound, then more of another one. -/
theorem append (first : BindsMore s n bound bound' t) (second : BindsMore t k more more' u) :
    BindsMore s (n + k) (bound ++ more) (bound' ++ more') u := by
  obtain ⟨names, issues, length, perm⟩ := first
  obtain ⟨names', issues', length', perm'⟩ := second
  refine ⟨names ++ names', issues.append issues', ?_, perm_append_append perm perm'⟩
  rw [List.length_append, length, length']

/-- `BindsMore s n (xs ++ bound) (xs ++ bound') t`: more is bound inside of a quantifier. -/
theorem inside (h : BindsMore s n bound bound' t) (xs : List String) :
    BindsMore s n (xs ++ bound) (xs ++ bound') t := by
  obtain ⟨names, issues, length, perm⟩ := h
  exact ⟨names, issues, length, by rw [List.append_assoc]; exact perm.append_left xs⟩

/-- A name that is taken stays taken. -/
theorem mem_taken (h : BindsMore s n bound bound' t) {x : String} (mem : x ∈ s.taken) :
    x ∈ t.taken := by
  obtain ⟨names, issues, -, -⟩ := h
  exact issues.mem_taken.2 (.inr mem)

end BindsMore

/-- `ψ` comes from `φ` by eliminating the functions while the supply goes from `s` to `t`, with a
fresh variable for each application. -/
structure EliminatedFrom (allowed : String → Prop) (s : FreshSupply) (φ ψ : Formula)
    (t : FreshSupply) : Prop where
  eliminated : Eliminated allowed φ ψ
  binds : BindsMore s φ.applications.length φ.boundVariables ψ.boundVariables t

/-! ## Literals -/

section Guard

variable {a : Atom} {flats : List Term} {ds : List Definition} {positive : Bool}

/-- `Definition.guarded ds …`: the literal of flat terms, guarded by their definitions, says what
the literal says. -/
theorem holds_guarded_iff {D : Type} {S : Structure D} {v : Valuation D}
    (run : Flattens s a.args flats ds t) (known : ∀ x ∈ a.occurrences, x ∈ s.taken)
    (graphs : ∀ p ∈ a.applications, S.IsGraph p.1 p.2) :
    (Definition.guarded ds (Literal.toFormula ⟨⟨a.predicate, flats⟩, positive⟩)).Holds S v ↔
      (Literal.toFormula ⟨a, positive⟩).Holds S v := by
  have graph : ∀ d ∈ ds, S.IsGraph d.function d.args.length :=
    fun d mem => graphs d.application (run.application_mem mem)
  have defined : ∀ w : Valuation D, (∀ d ∈ ds, d.toFormula.Holds S w) ↔ ∀ d ∈ ds, d.Holds S w :=
    fun w => forall₂_congr fun d mem => Definition.holds_toFormula (graph d mem)
  -- Where the definitions hold, the flat terms have the values that the terms have from the start.
  have literal : ∀ w, v.AgreesOutside (ds.map Definition.value) w → (∀ d ∈ ds, d.Holds S w) →
      ((Literal.toFormula ⟨⟨a.predicate, flats⟩, positive⟩).Holds S w ↔
        (Literal.toFormula ⟨a, positive⟩).Holds S v) := by
    intro w outside holds
    apply Literal.holds_toFormula_congr
    have same : ∀ x ∈ a.occurrences, w x = v x := by
      intro x mem
      refine (outside x ?_).symm
      intro new
      exact run.issues.fresh x new (known x mem)
    rw [← a.holds_congr S same, Atom.Holds, Atom.Holds, run.map_value S w holds]
  rw [Definition.holds_guarded]
  constructor
  · intro guarded
    obtain ⟨w, outside, holds⟩ := run.exists_holds known S v
    exact (literal w outside holds).1 (guarded w outside ((defined w).2 holds))
  · intro holds w outside premise
    exact (literal w outside ((defined w).1 premise)).2 holds

/-- `Definition.guarded ds …`: the literal of flat terms, guarded by their definitions, has the
variables of the literal. -/
theorem mem_freeOccurrences_guarded (run : Flattens s a.args flats ds t)
    (known : ∀ x ∈ a.occurrences, x ∈ s.taken) (x : String) :
    x ∈ (Definition.guarded ds
        (Literal.toFormula ⟨⟨a.predicate, flats⟩, positive⟩)).freeOccurrences ↔
      x ∈ a.occurrences := by
  rw [Definition.guarded, mem_freeOccurrences_quantified, freeOccurrences_connective,
    List.flatMap_cons, List.flatMap_singleton, freeOccurrences_not,
    Definition.freeOccurrences_conjunction, Literal.freeOccurrences_toFormula]
  by_cases new : x ∈ ds.map Definition.value
  · -- A fresh variable is bound, and does not occur in the atom.
    exact ⟨fun h => absurd new h.2, fun mem => absurd (known x mem) (run.issues.fresh x new)⟩
  · have premise : x ∈ ds.flatMap (fun d => d.toFormula.freeOccurrences) ↔
        x ∈ ds.flatMap fun d => d.args.flatMap Term.occurrences := by
      rw [List.mem_flatMap, List.mem_flatMap]
      refine exists_congr fun d => and_congr_right fun mem => ?_
      rw [Definition.freeOccurrences_toFormula, List.mem_append, List.mem_singleton]
      refine or_iff_left fun same => new ?_
      exact same ▸ List.mem_map_of_mem mem
    rw [List.mem_append, premise, and_iff_left new, or_comm]
    exact run.mem_occurrences_iff new

/-- `Definition.guarded ds …`: the literal of flat terms, guarded by their definitions, uses the
predicate of the literal and those of the definitions. -/
theorem mem_signature_guarded (run : Flattens s a.args flats ds t) (p : String × Nat) :
    p ∈ (Definition.guarded ds
        (Literal.toFormula ⟨⟨a.predicate, flats⟩, positive⟩)).signature ↔
      p = a.symbol ∨ p ∈ a.applications.map graphSymbol := by
  have flat : (⟨a.predicate, flats⟩ : Atom).symbol = a.symbol := by
    rw [Atom.symbol, Atom.symbol, run.map_application.2]
  rw [Definition.guarded, signature_quantified, signature_connective, List.flatMap_cons,
    List.flatMap_singleton, signature_not, Definition.signature_conjunction,
    Literal.signature_toFormula, run.map_application.1, flat, List.mem_append,
    List.mem_singleton, or_comm]
  rfl

/-- `ds ≠ []`: there is a definition if there is an application. -/
theorem definitions_ne_nil (run : Flattens s a.args flats ds t)
    (functions : a.hasFunctions = true) : ds ≠ [] := by
  rintro rfl
  have none : [] = a.applications := run.map_application.1
  rw [Atom.hasFunctions_eq_false_iff.2 none.symm] at functions
  cases functions

/-- The atom of a definition has no functions, and its predicate has an allowed name. -/
theorem wellFormed_definition (run : Flattens s a.args flats ds t)
    (names : (Leaves.naming allowed).atom a) {d : Definition} (mem : d ∈ ds) :
    d.toFormula.WellFormed (.functionFree allowed) := by
  refine .atom ⟨names.2 d.application (run.application_mem mem), ?_⟩
  simpa [Atom.hasFunctions, Term.isApplication] using run.plain.2 d mem

/-- `Definition.guarded ds …`: the literal of flat terms, guarded by their definitions, is
well-formed. -/
theorem wellFormed_guarded (run : Flattens s a.args flats ds t) (functions : a.hasFunctions = true)
    (names : (Leaves.naming allowed).atom a) :
    (Definition.guarded ds (Literal.toFormula ⟨⟨a.predicate, flats⟩, positive⟩)).WellFormed
      (.functionFree allowed) := by
  have some := definitions_ne_nil run functions
  have premise : (Definition.conjunction ds).WellFormed (.functionFree allowed) :=
    Definition.wellFormed_conjunction some fun d mem => wellFormed_definition run names mem
  have literal : (Literal.toFormula ⟨⟨a.predicate, flats⟩, positive⟩).WellFormed
      (.functionFree allowed) :=
    Literal.wellFormed_toFormula ⟨names.1, by simpa [Atom.hasFunctions] using run.plain.1⟩
  refine .quantified ⟨by simpa using some, run.issues.nodup, run.issues.named⟩ ?_
  refine .connective (Nat.le_refl 2) ?_ ?_
  · rw [List.forall_mem_cons, List.forall_mem_singleton]
    exact ⟨rfl, Literal.isConnective_toFormula _ _⟩
  · rw [List.forall_mem_cons, List.forall_mem_singleton]
    exact ⟨.not (.inr trivial) premise, literal⟩

/-- `(Definition.guarded ds l.toFormula).boundVariables`: a guarded literal binds the fresh
variables. -/
theorem boundVariables_guarded (ds : List Definition) (l : Literal) :
    (Definition.guarded ds l.toFormula).boundVariables = ds.map Definition.value := by
  rw [Definition.guarded, boundVariables_quantified, boundVariables_connective, List.flatMap_cons,
    List.flatMap_singleton, boundVariables_not, Definition.boundVariables_conjunction,
    Literal.boundVariables_toFormula, List.append_nil, List.append_nil]

/-- `a.eliminate positive`: a literal is rewritten, with a fresh variable for each application. -/
theorem ensures_eliminate (functions : a.hasFunctions = true)
    (known : ∀ x ∈ a.occurrences, x ∈ s.taken) (names : (Leaves.naming allowed).atom a) :
    (a.eliminate positive).Ensures s
      (EliminatedFrom allowed s (Literal.toFormula ⟨a, positive⟩))
      fun _ => False := by
  have run := flattens_inOrder a.args s
  rw [Atom.eliminate, Threaded.ensures_bind, Threaded.ensures_ofState]
  rw [Threaded.ensures_bind, Threaded.ensures_ofRecorded]
  show EliminatedFrom allowed s _ (Definition.guarded _ _) _
  refine ⟨⟨wellFormed_guarded run functions names, ?_, ?_, ?_⟩, ?_⟩
  · intro x
    rw [mem_freeOccurrences_guarded run known, Literal.freeOccurrences_toFormula]
  · intro p
    rw [mem_signature_guarded run, Literal.signature_toFormula, applications_toFormula,
      List.mem_singleton]
  · intro D S v graphs
    rw [applications_toFormula] at graphs
    exact holds_guarded_iff run known graphs
  · rw [Literal.boundVariables_toFormula, applications_toFormula]
    refine ⟨_, run.issues, ?_, .of_eq (boundVariables_guarded _ _)⟩
    rw [Atom.applications, ← run.map_application.1, List.length_map, List.length_map]

end Guard

/-! ## Formulas -/

/-- `EliminatedFrom allowed s`: a literal without functions is left as it is. -/
theorem eliminatedFrom_self {a : Atom} {positive : Bool} (functionFree : a.hasFunctions = false)
    (names : (Leaves.naming allowed).atom a) (s : FreshSupply) :
    EliminatedFrom allowed s (Literal.toFormula ⟨a, positive⟩) (Literal.toFormula ⟨a, positive⟩)
      s := by
  have none : (Literal.toFormula ⟨a, positive⟩).applications = [] := by
    rw [applications_toFormula, Atom.hasFunctions_eq_false_iff.1 functionFree]
  refine ⟨⟨Literal.wellFormed_toFormula ⟨names.1, functionFree⟩, fun _ => Iff.rfl, ?_,
    fun _ _ _ => Iff.rfl⟩, ?_⟩
  · simp [none]
  · rw [none]
    exact .refl s _

/-- `eliminateFunctions` rewrites a literal if it has functions. -/
theorem eliminateFunctions_toFormula (a : Atom) (positive : Bool) :
    eliminateFunctions (Literal.toFormula ⟨a, positive⟩) =
      if a.hasFunctions then a.eliminate positive
      else pure (Literal.toFormula ⟨a, positive⟩) := by
  cases positive with
  | true =>
    show eliminateFunctions (.atom a) = _
    rw [eliminateFunctions]
    rfl
  | false =>
    show eliminateFunctions (.not (.atom a)) = _
    rw [eliminateFunctions]
    rfl

/-- `eliminateFunctions` rewrites a negation that is no literal in its body. -/
theorem eliminateFunctions_not (compound : φ.isAtom = false) :
    eliminateFunctions (.not φ) = .not <$> φ.eliminateFunctions := by
  cases φ with
  | atom => cases compound
  | not | connective | quantified =>
    rw [eliminateFunctions]
    simp

/-- `eliminateFunctions` on a literal: it is rewritten, or left as it is. -/
theorem ensures_eliminateFunctions_literal {a : Atom} (positive : Bool)
    (known : ∀ x ∈ a.occurrences, x ∈ s.taken) (names : (Leaves.naming allowed).atom a) :
    (eliminateFunctions (Literal.toFormula ⟨a, positive⟩)).Ensures s
      (EliminatedFrom allowed s (Literal.toFormula ⟨a, positive⟩))
      fun _ => False := by
  rw [eliminateFunctions_toFormula]
  by_cases functions : a.hasFunctions = true
  · rw [if_pos functions]
    exact ensures_eliminate functions known names
  · rw [if_neg functions, Threaded.ensures_pure]
    exact eliminatedFrom_self ((Bool.not_eq_true _).mp functions) names s

/-- The body of a negation is rewritten. -/
theorem EliminatedFrom.not (h : EliminatedFrom allowed s φ ψ t) :
    EliminatedFrom allowed s (.not φ) (.not ψ) t := by
  refine ⟨⟨.not (.inr trivial) h.eliminated.wellFormed, ?_, ?_, ?_⟩, ?_⟩
  · intro x
    rw [freeOccurrences_not, freeOccurrences_not, h.eliminated.free x]
  · intro p
    rw [signature_not, signature_not, applications, h.eliminated.signature p]
  · intro D S v graphs
    rw [applications] at graphs
    rw [Holds, Holds, h.eliminated.holds S v graphs]
  · rw [applications, boundVariables_not, boundVariables_not]
    exact h.binds

/-- The body of a quantifier is rewritten. -/
theorem EliminatedFrom.quantified {q : Quantifier} {xs : List String}
    (h : EliminatedFrom allowed s φ ψ t) (binder : IsBinder xs) :
    EliminatedFrom allowed s (.quantified q xs φ) (.quantified q xs ψ) t := by
  refine ⟨⟨.quantified binder h.eliminated.wellFormed, ?_, ?_, ?_⟩, ?_⟩
  · intro x
    rw [mem_freeOccurrences_quantified, mem_freeOccurrences_quantified, h.eliminated.free x]
  · intro p
    rw [signature_quantified, signature_quantified, applications, h.eliminated.signature p]
  · intro D S v graphs
    rw [applications] at graphs
    exact holds_quantified_iff fun w => h.eliminated.holds S w graphs
  · rw [applications, boundVariables_quantified, boundVariables_quantified]
    exact h.binds.inside xs

/-- `combine op ψs = .ok ψ`: the members of a connective are rewritten, and the connective is
flattened again. -/
theorem Eliminated.connective (op : Connective) {φs ψs : List Formula}
    (each : List.Forall₂ (Eliminated allowed) φs ψs) (two : 2 ≤ φs.length) :
    ∃ ψ, combine op ψs = .ok ψ ∧ Eliminated allowed (.connective op φs) ψ ∧
      ψ.boundVariables = ψs.flatMap boundVariables := by
  have wellFormed : ∀ ψ ∈ ψs, ψ.WellFormed (.functionFree allowed) :=
    forall_right_of_forall₂ each fun _ _ h => h.wellFormed
  have built := combine_of_wellFormed op (each.length_eq ▸ two) wellFormed
  refine ⟨_, built, ⟨.of_combine wellFormed built, ?_, ?_, ?_⟩, boundVariables_of_combine built⟩
  · intro x
    rw [freeOccurrences_of_combine built, freeOccurrences_connective, List.mem_flatMap,
      List.mem_flatMap]
    exact (exists_mem_iff_of_forall₂ each fun φ ψ h => (h.free x).symm).symm
  · intro p
    have some := exists_mem_iff_of_forall₂ each fun φ ψ h => (h.signature p).symm
    rw [signature_of_combine built, signature_connective, applications, List.map_flatMap,
      List.mem_flatMap, List.mem_flatMap, List.mem_flatMap, ← some]
    simp only [and_or_left, exists_or]
  -- The graphs that the members need are among those that the connective needs.
  · intro D S v graphs
    rw [applications] at graphs
    have graphs : ∀ φ ∈ φs, ∀ p ∈ φ.applications, S.IsGraph p.1 p.2 := fun φ mem p hp =>
      graphs p (List.mem_flatMap.2 ⟨φ, mem, hp⟩)
    have same : List.Forall₂ (fun φ ψ => φ.Holds S v ↔ ψ.Holds S v) φs ψs :=
      ((List.forall₂_and_left _ _).2 ⟨graphs, each⟩).imp
        fun φ ψ both => (both.2.holds S v both.1).symm
    exact (holds_combine built).trans (holds_connective_congr op same).symm

/-- `inOrder (φs.map eliminateFunctions)`: the members of a list of formulas are rewritten one after
the other. -/
theorem ensures_inOrder_eliminateFunctions {φs : List Formula}
    (each : ∀ φ ∈ φs, ∀ s, (∀ x ∈ φ.occurrences, x ∈ s.taken) →
      φ.eliminateFunctions.Ensures s (EliminatedFrom allowed s φ) fun _ => False)
    (known : ∀ x ∈ φs.flatMap occurrences, x ∈ s.taken) :
    (inOrder (φs.map eliminateFunctions)).Ensures s
      (fun ψs t => List.Forall₂ (Eliminated allowed) φs ψs ∧
        BindsMore s (φs.flatMap applications).length (φs.flatMap boundVariables)
          (ψs.flatMap boundVariables) t)
      fun _ => False := by
  induction φs generalizing s with
  | nil => exact ⟨.nil, .refl s []⟩
  | cons φ φs ih =>
    rw [List.forall_mem_cons] at each
    rw [List.flatMap_cons, List.forall_mem_append] at known
    rw [List.map_cons, Threaded.ensures_inOrder_cons]
    refine (each.1 s known.1).mono (fun ψ t first => ?_) fun _ => id
    -- The first member only takes more names, so those of the others are still taken.
    have known' : ∀ x ∈ φs.flatMap occurrences, x ∈ t.taken :=
      fun x mem => first.binds.mem_taken (known.2 x mem)
    refine (ih each.2 known').mono (fun ψs u rest => ?_) fun _ => id
    refine ⟨.cons first.eliminated rest.1, ?_⟩
    simp only [List.flatMap_cons, List.length_append]
    exact first.binds.append rest.2

/-- **Elimination succeeds.** `φ.eliminateFunctions`: the functions of a well-formed formula are
eliminated, with a fresh variable for each of their applications. -/
theorem ensures_eliminateFunctions (wellFormed : φ.WellFormed (.naming allowed))
    (known : ∀ x ∈ φ.occurrences, x ∈ s.taken) :
    φ.eliminateFunctions.Ensures s (EliminatedFrom allowed s φ) fun _ => False := by
  induction wellFormed generalizing s with
  | @atom a names =>
    rw [occurrences] at known
    exact ensures_eliminateFunctions_literal true known names
  | @not φ _ body ih =>
    rw [occurrences] at known
    -- The negation of an atom is taken as one literal.
    cases body with
    | @atom a names =>
      rw [occurrences] at known
      exact ensures_eliminateFunctions_literal false known names
    | not | connective | quantified =>
      rw [eliminateFunctions_not rfl, Threaded.ensures_map]
      exact (ih known).mono (fun ψ t h => h.not) fun _ => id
  | @connective op φs two flat members ih =>
    rw [occurrences] at known
    rw [eliminateFunctions, Threaded.ensures_bind]
    refine (ensures_inOrder_eliminateFunctions (fun φ mem s known => ih φ mem known) known).mono
      (fun ψs t h => ?_) fun _ => id
    obtain ⟨each, binds⟩ := h
    obtain ⟨ψ, built, eliminated, bound⟩ := Eliminated.connective op each two
    rw [Threaded.ensures_ofRecorded, Recorded.result_ofExcept, built]
    refine ⟨eliminated, ?_⟩
    rw [applications, boundVariables_connective, bound]
    exact binds
  | @quantified q xs φ binder _ ih =>
    rw [occurrences] at known
    rw [eliminateFunctions, Threaded.ensures_map]
    exact (ih known).mono (fun ψ t h => h.quantified binder) fun _ => id

end Formula

end ClausalForm
