import ClausalForm.Proofs.AlphaEquivalence
import ClausalForm.Proofs.FunctionElimination
import ClausalForm.Proofs.TwoRuns

/-! # Elimination of functions from formulas that are alike

The fresh variables avoid all names of a formula, so formulas with different bound variables may get
different fresh variables. These are bound again: without functions the formulas are still alike up
to the names of their bound variables.

* **`Flattens.renamed`**: the flat terms and definitions of renamed terms are the renamed ones.
* **`Flattens.recovers`**: their variables can be told from the new names.
* **`Formula.AlphaEq.guarded`**: guarded literals of atoms that are alike.
* **`Formula.AlphaEq.matched_combine`**: connectives built from members that are alike.
* **`Formula.AlphaEq.together_eliminateFunctions`**: the elimination of both formulas. -/

namespace ClausalForm

namespace Renaming

variable {m : Renaming} {x y : String} {xs ys : List String}

/-! ## New names for distinct variables -/

/-- `(ofPlaces xs ys).rename x = y`: a variable gets the name at its place if it has no other
place. -/
theorem rename_ofPlaces_of_mem_zip (length : xs.length = ys.length) (nodup : xs.Nodup)
    (pair : (x, y) ∈ xs.zip ys) : (ofPlaces xs ys).rename x = y := by
  have mem := (mem_fst_ofPlaces (Nat.le_of_eq length)).2 (List.of_mem_zip pair).1
  have renamed := mem_ofPlaces.1 (mem_of_mem_fst mem)
  rw [← List.map_fst_zip (Nat.le_of_eq length)] at nodup
  exact congrArg Prod.snd (List.inj_on_of_nodup_map nodup renamed pair rfl)

/-- `xs.map (ofPlaces xs ys).rename = ys`: distinct variables get the names of the second list in
order. -/
theorem map_rename_ofPlaces (length : xs.length = ys.length) (nodup : xs.Nodup) :
    xs.map (ofPlaces xs ys).rename = ys := by
  have each : ∀ p ∈ xs.zip ys, (ofPlaces xs ys).rename p.1 = p.2 :=
    fun p mem => rename_ofPlaces_of_mem_zip length nodup mem
  calc xs.map (ofPlaces xs ys).rename
    _ = ((xs.zip ys).map Prod.fst).map (ofPlaces xs ys).rename := by
      rw [List.map_fst_zip (Nat.le_of_eq length)]
    _ = (xs.zip ys).map Prod.snd := by
      rw [List.map_map]
      exact List.map_congr_left each
    _ = ys := List.map_snd_zip (Nat.le_of_eq length.symm)

/-- `(ofPlaces xs ys ++ m).Recovers x`: distinct variables of a quantifier can be told from distinct
new names. -/
theorem recovers_inside (length : xs.length = ys.length) (nodup : ys.Nodup) (mem : x ∈ xs) :
    (ofPlaces xs ys ++ m).Recovers x := by
  have pair := mem_ofPlaces.1 (mem_of_mem_fst ((mem_fst_ofPlaces (Nat.le_of_eq length)).2 mem))
  have back : ((ofPlaces xs ys).rename x, x) ∈ ys.zip xs := by
    rw [← List.zip_swap]
    exact List.mem_map_of_mem (f := Prod.swap) pair
  rw [Recovers, inverse_inside, rename_inside length mem,
    rename_inside length.symm (List.of_mem_zip back).1]
  exact rename_ofPlaces_of_mem_zip length.symm nodup back

/-- A variable from outside of a quantifier can be told from its new name if the quantifier binds
neither of them. -/
theorem Recovers.inside (h : m.Recovers x) (length : xs.length = ys.length) (out : x ∉ xs)
    (apart : m.rename x ∉ ys) : (ofPlaces xs ys ++ m).Recovers x := by
  rw [Recovers, inverse_inside, rename_outside length out, rename_outside length.symm apart]
  exact h

end Renaming

/-! ## Renamed terms -/

/-- `(t.rename f).isApplication`: a renamed term is an application if the term is. -/
theorem Term.isApplication_rename (f : String → String) (t : Term) :
    (t.rename f).isApplication = t.isApplication := by
  cases t <;> rw [rename] <;> rfl

/-- `(a.rename f).hasFunctions`: a renamed atom has functions if the atom has. -/
theorem Atom.hasFunctions_rename (f : String → String) (a : Atom) :
    (a.rename f).hasFunctions = a.hasFunctions := by
  simp only [hasFunctions, rename, List.any_map, Function.comp_def, Term.isApplication_rename]

/-- `d.rename f`: a definition with its variables renamed. -/
def Definition.rename (f : String → String) (d : Definition) : Definition :=
  ⟨d.function, d.args.map (Term.rename f), f d.value⟩

namespace Flattens

variable {f g : String → String} {s t s' t' : FreshSupply} {ts flats flats' : List Term}
  {ds ds' : List Definition}

/-- There are as many definitions for renamed terms. -/
theorem length_eq (run : Flattens s ts flats ds t)
    (run' : Flattens s' (ts.map (Term.rename g)) flats' ds' t') : ds'.length = ds.length := by
  have same : ds'.map Definition.application = ds.map Definition.application := by
    rw [run.map_application.1, run'.map_application.1, List.flatMap_map]
    exact List.flatMap_congr fun t _ => t.applications_rename g
  simpa using congrArg List.length same

/-- If `f` renames the fresh variables of one run to those of another run, on terms renamed by `f`,
then it renames all that comes out of the first run to what comes out of the second one. -/
theorem of_rename (run : Flattens s ts flats ds t)
    (run' : Flattens s' (ts.map (Term.rename g)) flats' ds' t')
    (old : ∀ x ∈ ts.flatMap Term.occurrences, f x = g x)
    (new : ds'.map Definition.value = (ds.map Definition.value).map f) :
    flats' = flats.map (Term.rename f) ∧ ds' = ds.map (Definition.rename f) := by
  induction run generalizing s' flats' ds' t' with
  | nil =>
    cases run'
    exact ⟨rfl, rfl⟩
  | var _ ih =>
    rw [List.map_cons, Term.rename] at run'
    cases run' with
    | var rest =>
      simp only [List.flatMap_cons, Term.occurrences, List.forall_mem_append,
        List.forall_mem_singleton] at old
      obtain ⟨flat, definitions⟩ := ih rest old.2 new
      refine ⟨?_, definitions⟩
      rw [List.map_cons, Term.rename, old.1, flat]
  | @app s t u c args flatArgs ts flats ds es inner _ ihInner ihRest =>
    rw [List.map_cons, Term.rename] at run'
    cases run' with
    | @app _ t' _ _ _ flatArgs' _ _ ds' es' inner' rest' =>
      simp only [List.flatMap_cons, Term.occurrences, List.forall_mem_append] at old
      -- The fresh variables are those of the arguments, that of the application and the others.
      simp only [List.map_append, List.map_singleton] at new
      obtain ⟨front, later⟩ := List.append_inj new (by simp [inner.length_eq inner'])
      obtain ⟨before, here⟩ := List.append_inj front (by simp [inner.length_eq inner'])
      obtain ⟨flatInner, first⟩ := ihInner inner' old.1 before
      obtain ⟨flatRest, last⟩ := ihRest rest' old.2 later
      have value : (FreshSupply.next c t').1 = f (FreshSupply.next c t).1 :=
        List.singleton_inj.1 here
      refine ⟨?_, ?_⟩
      · rw [List.map_cons, Term.rename, value, flatRest]
      · rw [List.map_append, List.map_append, List.map_singleton, Definition.rename, first, last,
          flatInner, value]

/-- There are as many fresh variables for renamed terms. -/
theorem length_values (run : Flattens s ts flats ds t)
    (run' : Flattens s' (ts.map (Term.rename g)) flats' ds' t') :
    (ds.map Definition.value).length = (ds'.map Definition.value).length := by
  rw [List.length_map, List.length_map, run.length_eq run']

variable {m : Renaming}

/-- `Flattens` on terms and on renamed terms: inside of the quantifiers over the fresh variables,
all that comes out of one run is renamed to what comes out of the other one. -/
theorem renamed (run : Flattens s ts flats ds t)
    (run' : Flattens s' (ts.map (Term.rename m.rename)) flats' ds' t')
    (known : ∀ x ∈ ts.flatMap Term.occurrences, x ∈ s.taken) :
    let inner := Renaming.ofPlaces (ds.map Definition.value) (ds'.map Definition.value) ++ m
    flats' = flats.map (Term.rename inner.rename) ∧
      ds' = ds.map (Definition.rename inner.rename) := by
  have length := run.length_values run'
  refine run.of_rename run' (fun x mem => ?_) ?_
  · have old : x ∉ ds.map Definition.value := fun new => run.issues.fresh x new (known x mem)
    exact Renaming.rename_outside length old
  · refine (Renaming.map_rename_ofPlaces length run.issues.nodup).symm.trans ?_
    exact List.map_congr_left fun x mem => (Renaming.rename_inside length mem).symm

/-- Inside of the quantifiers over the fresh variables, each variable of the flat terms and of the
definitions can be told from its new name. -/
theorem recovers (run : Flattens s ts flats ds t)
    (run' : Flattens s' (ts.map (Term.rename m.rename)) flats' ds' t')
    (known' : ∀ x ∈ (ts.map (Term.rename m.rename)).flatMap Term.occurrences, x ∈ s'.taken)
    (recovers : ∀ x ∈ ts.flatMap Term.occurrences, m.Recovers x) {x : String}
    (mem : x ∈ flats.flatMap Term.occurrences ∨ x ∈ ds.flatMap Definition.occurrences) :
    (Renaming.ofPlaces (ds.map Definition.value) (ds'.map Definition.value) ++ m).Recovers x := by
  have length := run.length_values run'
  by_cases new : x ∈ ds.map Definition.value
  · exact Renaming.recovers_inside length run'.issues.nodup new
  · -- A variable that is not fresh is one of the terms, and its new name is not fresh either.
    have args : x ∈ ds.flatMap Definition.occurrences →
        x ∈ ds.flatMap fun d => d.args.flatMap Term.occurrences := by
      simp only [List.mem_flatMap, Definition.occurrences, List.mem_cons]
      rintro ⟨d, hd, rfl | arg⟩
      · exact absurd (List.mem_map_of_mem hd) new
      · exact ⟨d, hd, arg⟩
    have old : x ∈ ts.flatMap Term.occurrences :=
      (run.mem_occurrences_iff new).1 (mem.imp_right args)
    have apart : m.rename x ∉ ds'.map Definition.value := by
      intro fresh
      refine run'.issues.fresh _ fresh (known' _ ?_)
      obtain ⟨t, ht, hx⟩ := List.mem_flatMap.1 old
      refine List.mem_flatMap.2 ⟨t.rename m.rename, List.mem_map_of_mem ht, ?_⟩
      rw [Term.occurrences_rename]
      exact List.mem_map_of_mem hx
    exact (recovers x old).inside length new apart

end Flattens

namespace Formula

variable {m : Renaming} {φ ψ : Formula} {φs ψs : List Formula}

/-! ## Guarded literals -/

namespace AlphaEq

/-- `AlphaEq m` on literals: a literal is like the literal of the renamed atom. -/
theorem literal {a : Atom} (recovers : ∀ x ∈ a.occurrences, m.Recovers x) (positive : Bool) :
    AlphaEq m (Literal.toFormula ⟨a, positive⟩)
      (Literal.toFormula ⟨a.rename m.rename, positive⟩) := by
  cases positive with
  | true => exact .atom recovers
  | false => exact .not (.atom recovers)

/-- `AlphaEq m` on definitions: a definition is like the renamed one. -/
theorem definition {d : Definition} (recovers : ∀ x ∈ d.occurrences, m.Recovers x) :
    AlphaEq m d.toFormula (d.rename m.rename).toFormula := by
  have renamed : (d.rename m.rename).toFormula =
      .atom ((⟨d.function, d.args ++ [.var d.value]⟩ : Atom).rename m.rename) := by
    simp [Definition.toFormula, Definition.rename, Atom.rename, Term.rename]
  rw [renamed]
  refine .atom fun x mem => recovers x ?_
  rw [← freeOccurrences_atom, ← Definition.toFormula, Definition.freeOccurrences_toFormula] at mem
  simpa [Definition.occurrences, or_comm] using mem

/-- Definitions are like the renamed ones. -/
theorem conjunction {ds : List Definition}
    (recovers : ∀ d ∈ ds, ∀ x ∈ d.occurrences, m.Recovers x) :
    AlphaEq m (Definition.conjunction ds)
      (Definition.conjunction (ds.map (Definition.rename m.rename))) := by
  have members : List.Forall₂ (AlphaEq m) (ds.map Definition.toFormula)
      ((ds.map (Definition.rename m.rename)).map Definition.toFormula) := by
    rw [List.map_map, List.forall₂_map_left_iff, List.forall₂_map_right_iff, List.forall₂_same]
    exact fun d mem => definition (recovers d mem)
  match ds with
  | [] => exact of_members members
  | [d] => exact definition (recovers d List.mem_cons_self)
  | _ :: _ :: _ => exact of_members members

/-- `Definition.guarded`: the guarded literals of an atom and of the renamed atom are alike,
whatever fresh variables they have. -/
theorem guarded {a : Atom} {s t s' t' : FreshSupply} {flats flats' : List Term}
    {ds ds' : List Definition} (positive : Bool) (recovers : ∀ x ∈ a.occurrences, m.Recovers x)
    (run : Flattens s a.args flats ds t) (known : ∀ x ∈ a.occurrences, x ∈ s.taken)
    (run' : Flattens s' (a.rename m.rename).args flats' ds' t')
    (known' : ∀ x ∈ (a.rename m.rename).occurrences, x ∈ s'.taken) :
    AlphaEq m (Definition.guarded ds (Literal.toFormula ⟨⟨a.predicate, flats⟩, positive⟩))
      (Definition.guarded ds' (Literal.toFormula ⟨⟨a.predicate, flats'⟩, positive⟩)) := by
  let inner : Renaming := .ofPlaces (ds.map Definition.value) (ds'.map Definition.value) ++ m
  obtain ⟨flat, definitions⟩ := run.renamed run' known
  have inside : ∀ x, x ∈ flats.flatMap Term.occurrences ∨ x ∈ ds.flatMap Definition.occurrences →
      inner.Recovers x := fun x mem => run.recovers run' known' recovers mem
  have premise : AlphaEq inner (Definition.conjunction ds) (Definition.conjunction ds') := by
    rw [definitions]
    exact conjunction fun d mem x hx => inside x (.inr (List.mem_flatMap.2 ⟨d, mem, hx⟩))
  have conclusion : AlphaEq inner (Literal.toFormula ⟨⟨a.predicate, flats⟩, positive⟩)
      (Literal.toFormula ⟨⟨a.predicate, flats'⟩, positive⟩) := by
    rw [flat]
    exact literal (a := ⟨a.predicate, flats⟩) (fun x mem => inside x (.inl mem)) positive
  exact .quantified (run.length_values run')
    (of_members (.cons (.not premise) (.cons conclusion .nil)))

/-! ## Connectives -/

/-- `List.Forall₂ (AlphaEq m)`: formulas that are alike have members that are alike. -/
theorem membersOf (h : AlphaEq m φ ψ) (op : Connective) :
    List.Forall₂ (AlphaEq m) (φ.membersOf op) (ψ.membersOf op) := by
  cases h with
  | atom recovers => exact .cons (.atom recovers) .nil
  | not body => exact .cons (.not body) .nil
  | @connective _ op' φs ψs length members =>
    rw [Formula.membersOf, Formula.membersOf]
    split
    · exact forall₂_of_zip length members
    · exact .cons (.connective length members) .nil
  | quantified length body => exact .cons (.quantified length body) .nil

/-- `combine op φs` and `combine op ψs`: connectives built from members that are alike are alike, or
neither can be built. -/
theorem matched_combine (alike : List.Forall₂ (AlphaEq m) φs ψs) (op : Connective) :
    Matched (AlphaEq m) Eq (combine op φs) (combine op ψs) := by
  have all : List.Forall₂ (AlphaEq m) (spliced op φs) (spliced op ψs) :=
    List.rel_flatMap alike fun φ ψ h => h.membersOf op
  unfold combine
  generalize spliced op φs = members at all
  generalize spliced op ψs = members' at all
  cases all with
  | nil => exact .error rfl
  | cons first rest =>
    cases rest with
    | nil => exact .ok first
    | cons second rest => exact .ok (of_members (.cons first (.cons second rest)))

/-! ## Elimination -/

/-- A literal and the literal of the renamed atom are rewritten, or left as they are. -/
theorem together_eliminateFunctions_literal {a : Atom} {s t : FreshSupply} (positive : Bool)
    (recovers : ∀ x ∈ a.occurrences, m.Recovers x) (known : ∀ x ∈ a.occurrences, x ∈ s.taken)
    (known' : ∀ x ∈ (a.rename m.rename).occurrences, x ∈ t.taken) :
    (eliminateFunctions (Literal.toFormula ⟨a, positive⟩)).Together s
      (eliminateFunctions (Literal.toFormula ⟨a.rename m.rename, positive⟩)) t
      fun φ s' ψ t' => AlphaEq m φ ψ ∧ s.taken ⊆ s'.taken ∧ t.taken ⊆ t'.taken := by
  rw [eliminateFunctions_toFormula, eliminateFunctions_toFormula, Atom.hasFunctions_rename]
  by_cases functions : a.hasFunctions = true
  · rw [if_pos functions, if_pos functions]
    have run := flattens_inOrder a.args s
    have run' := flattens_inOrder (a.rename m.rename).args t
    rw [Atom.eliminate, Atom.eliminate, Threaded.together_ofState_bind,
      Threaded.together_record_bind]
    refine Threaded.together_pure ⟨guarded positive recovers run known run' known', ?_, ?_⟩
    · exact fun x mem => run.issues.mem_taken.2 (.inr mem)
    · exact fun x mem => run'.issues.mem_taken.2 (.inr mem)
  · rw [if_neg functions, if_neg functions]
    exact Threaded.together_pure ⟨literal recovers positive, fun _ => id, fun _ => id⟩

/-- **Elimination up to bound names.** Formulas that are alike are alike after `eliminateFunctions`,
whatever names their fresh variables have, or neither can be built. -/
theorem together_eliminateFunctions {s t : FreshSupply} (h : AlphaEq m φ ψ)
    (known : ∀ x ∈ φ.occurrences, x ∈ s.taken) (known' : ∀ x ∈ ψ.occurrences, x ∈ t.taken) :
    φ.eliminateFunctions.Together s ψ.eliminateFunctions t
      fun φ' s' ψ' t' => AlphaEq m φ' ψ' ∧ s.taken ⊆ s'.taken ∧ t.taken ⊆ t'.taken := by
  induction h generalizing s t with
  | @atom m a recovers =>
    rw [occurrences] at known known'
    exact together_eliminateFunctions_literal true recovers known known'
  | @not m φ ψ body ih =>
    rw [occurrences] at known known'
    cases atomic : φ.isAtom with
    | false =>
      rw [eliminateFunctions_not atomic, eliminateFunctions_not (body.isAtom_eq.trans atomic)]
      exact Threaded.together_map ((ih known known').mono
        fun _ _ _ _ related => ⟨.not related.1, related.2⟩)
    | true =>
      -- The negation of an atom is taken as one literal.
      cases body with
      | @atom _ a recovers =>
        rw [occurrences] at known known'
        exact together_eliminateFunctions_literal false recovers known known'
      | not | connective | quantified => cases atomic
  | @connective m op φs ψs length members ih =>
    simp only [occurrences, List.mem_flatMap] at known known'
    rw [eliminateFunctions, eliminateFunctions]
    -- The supplies only take more names, so those of all members stay taken.
    have each : List.Forall₂ (fun x y => ∀ s' t', s.taken ⊆ s'.taken ∧ t.taken ⊆ t'.taken →
        x.Together s' y t' fun φ' s' ψ' t' =>
          AlphaEq m φ' ψ' ∧ s.taken ⊆ s'.taken ∧ t.taken ⊆ t'.taken)
        (φs.map eliminateFunctions) (ψs.map eliminateFunctions) := by
      rw [List.forall₂_map_left_iff, List.forall₂_map_right_iff]
      refine forall₂_of_zip length fun p mem s' t' later => ?_
      have first : ∀ x ∈ p.1.occurrences, x ∈ s'.taken :=
        fun x hx => later.1 (known x ⟨p.1, (List.of_mem_zip mem).1, hx⟩)
      have second : ∀ x ∈ p.2.occurrences, x ∈ t'.taken :=
        fun x hx => later.2 (known' x ⟨p.2, (List.of_mem_zip mem).2, hx⟩)
      exact (ih p mem first second).mono fun _ _ _ _ related =>
        ⟨related.1, List.Subset.trans later.1 related.2.1, List.Subset.trans later.2 related.2.2⟩
    refine Threaded.together_bind (Threaded.together_inOrder each ⟨fun _ => id, fun _ => id⟩) ?_
    intro φs' s' ψs' t' related
    exact Threaded.together_ofRecorded.2
      ((matched_combine related.1 op).mono fun _ _ alike => ⟨alike, related.2⟩)
  | @quantified m q xs ys φ ψ length body ih =>
    rw [occurrences] at known known'
    rw [eliminateFunctions, eliminateFunctions]
    exact Threaded.together_map ((ih known known').mono
      fun _ _ _ _ related => ⟨.quantified length related.1, related.2⟩)

end AlphaEq

end Formula

end ClausalForm
