import ClausalForm.Proofs.LooserSettings
import Mathlib.Data.Nat.Nth

/-! # Names of standardized formulas

Standardizing on its own, of any formula and under any settings. The sequence of names with some
left out is an enumeration, and the bound variables of the result are its start.

* **`filter_range_eq_map_nth`**: the numbers that are kept, enumerated.
* **`infinite_setOf_not_mem`**: there always are more names.
* **`VariableSupply.Issues.eq_map_nth`**: the names that a supply hands out from its start.
* **`Formula.standardize_renames`**: what standardizing returns, when, and why it fails. -/

namespace ClausalForm

/-- `(List.range (Nat.count p k)).map (Nat.nth p)`: the first numbers with a property are those that
enumerate it. -/
theorem filter_range_eq_map_nth (p : Nat → Prop) [DecidablePred p] (k : Nat) :
    ((List.range k).filter fun i => p i) = (List.range (Nat.count p k)).map (Nat.nth p) := by
  induction k with
  | zero => simp
  | succ k ih =>
    rw [List.range_succ, List.filter_append, ih, Nat.count_succ]
    by_cases here : p k
    · -- The next number is the one that is enumerated at the place reached.
      rw [if_pos here, List.range_succ, List.map_append, List.map_singleton, Nat.nth_count here,
        List.filter_cons_of_pos (by simpa using here), List.filter_nil]
    · rw [if_neg here, List.filter_cons_of_neg (by simpa using here), List.filter_nil,
        List.append_nil, Nat.add_zero]

/-- However many names are `taken`, infinitely many are left. So `Nat.nth` goes on enumerating them,
and never returns the value that it has past the end. -/
theorem infinite_setOf_not_mem (taken : List String) :
    {i | roundName i ∉ taken}.Infinite := by
  have injective : Function.Injective roundName := fun i j => roundName_injective i j
  have finite : (Set.preimage roundName {x | x ∈ taken}).Finite :=
    taken.finite_toSet.preimage injective.injOn
  exact finite.infinite_compl

/-- `namesBetween taken 0 k`: the names at the start of the sequence that are not taken are the
first ones of those left. -/
theorem VariableSupply.namesBetween_zero (taken : List String) (k : Nat) :
    namesBetween taken 0 k = (List.range (Nat.count (fun i => roundName i ∉ taken) k)).map
      fun i => roundName (Nat.nth (fun j => roundName j ∉ taken) i) := by
  rw [namesBetween, Nat.sub_zero, ← List.range_eq_range', List.filter_map, Function.comp_def,
    filter_range_eq_map_nth, List.map_map, Function.comp_def]

/-- `(avoiding naming taken).Issues names t`: from its start a supply hands out the first names that
it does not leave out. -/
theorem VariableSupply.Issues.eq_map_nth {naming : Naming} {taken names : List String}
    {t : VariableSupply} (h : (avoiding naming taken).Issues names t) :
    names = (List.range names.length).map
      fun i => roundName (Nat.nth (fun j => roundName j ∉ taken) i) := by
  have start : names = namesBetween taken 0 t.position := h.eq
  have enumerated := start.trans (namesBetween_zero taken t.position)
  have length := congrArg List.length enumerated
  rw [List.length_map, List.length_range] at length
  rw [length]
  exact enumerated

namespace Formula

/-- **Standardizing renames apart.** `φ.standardize settings` renames the bound variables of a
formula, every occurrence following its innermost quantifier, to the first names that are not free
in it, so that none is bound twice or free. It succeeds exactly if no free variable is refused and
there are enough names; if there are always enough, it fails with the first free variable. -/
theorem standardize_renames (φ : Formula) (settings : Settings) :
    (∀ r, (φ.standardize settings).result = .ok r →
      AlphaEq [] φ r ∧ r.boundVariables.Nodup ∧ (∀ x ∈ r.boundVariables, x ∉ r.freeVariables) ∧
        r.freeVariables = φ.freeVariables ∧
        r.boundVariables = (List.range φ.boundVariables.length).map
          fun i => roundName (Nat.nth (fun j => roundName j ∉ φ.freeVariables) i)) ∧
      ((∃ r, (φ.standardize settings).result = .ok r) ↔
        (settings.unbound = .permissive ∨ φ.freeVariables = []) ∧
          (settings.naming = .unbounded ∨ φ.boundVariables.length ≤
            alphabetSize - (φ.freeVariables.filter fun x => x ∈ letters).length)) ∧
      (settings.unbound = .strict → settings.naming = .unbounded →
        ∀ e, (φ.standardize settings).result = .error e →
          ∃ x, φ.freeVariables.head? = some x ∧ e = .unbound x) := by
  refine ⟨fun r h => ?_, exists_standardize_iff, fun _ unbounded e failed => ?_⟩
  · obtain ⟨renamed, -, -⟩ := standardized_of_standardize h
    obtain ⟨alike, t, issues⟩ := issues_of_standardize h
    -- Only bound variables are renamed.
    have free : r.freeVariables = φ.freeVariables := by
      rw [freeVariables, renamed.freeOccurrences_eq, freeVariables]
    refine ⟨alike, renamed.nodup, fun x mem => ?_, free, ?_⟩
    · rw [mem_freeVariables]
      exact renamed.separated.apart x mem
    · rw [← alike.length_boundVariables]
      exact issues.eq_map_nth
  · rcases of_standardize_eq_error failed with ⟨-, first⟩ | ⟨alphabet, -⟩
    · exact first
    · rw [unbounded] at alphabet
      cases alphabet

end Formula

end ClausalForm
