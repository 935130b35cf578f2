import ClausalForm.Proofs.Normalization
import ClausalForm.Proofs.ReplacedVariables

/-! # Looser settings

Settings matter for whether there is a normal form, not for which one it is. Both supplies of names
go through the same sequence, and the policy only decides whether a free variable is refused, so
that what succeeds under some settings succeeds with the same normal form under looser ones.

* **`Settings.IsLoosenedBy`**: settings that refuse less than others.
* **`Formula.eq_of_standardize`**: there is at most one standardized formula under all settings.
* **`Statement.normalize_of_isLoosenedBy`**: normal forms are kept. -/

namespace ClausalForm

namespace VariableSupply

variable {s t s' t' : VariableSupply} {names more taken : List String} {i j k : Nat}

/-- `namesBetween taken i j`: parts of the sequence with one start and equally many names are the
same. -/
theorem namesBetween_eq_of_length (left : i ≤ j) (right : i ≤ k)
    (length : (namesBetween taken i j).length = (namesBetween taken i k).length) :
    namesBetween taken i j = namesBetween taken i k := by
  wlog le : j ≤ k generalizing j k
  · exact (this right left length.symm (Nat.le_of_not_le le)).symm
  · have start : namesBetween taken i j <+: namesBetween taken i k := by
      rw [← namesBetween_append left le]
      exact List.prefix_append _ _
    exact start.eq_of_length length

/-- `s.Issues names t`: supplies that stand at one place and leave out the same names hand out the
same names. -/
theorem Issues.eq_of_length (h : s.Issues names t) (h' : s'.Issues more t')
    (place : s'.position = s.position) (taken : s'.taken = s.taken)
    (length : names.length = more.length) : names = more := by
  obtain ⟨-, -, le, rfl, -, -⟩ := h
  obtain ⟨-, -, le', rfl, -, -⟩ := h'
  rw [taken, place] at length ⊢
  exact namesBetween_eq_of_length le (place ▸ le') length

end VariableSupply

/-! ## Settings -/

/-- The settings `looser` give out all names if the settings do, and refuse no variable that the
settings keep. -/
structure Settings.IsLoosenedBy (settings looser : Settings) : Prop where
  naming : settings.naming = .alphabet ∨ looser.naming = settings.naming
  unbound : settings.unbound = .strict ∨ looser.unbound = settings.unbound

namespace Formula

variable {settings looser : Settings} {φ r r' : Formula}

/-- `φ.standardize settings`: a standardized formula binds the first names that are not free in the
formula. -/
theorem issues_of_standardize (h : (φ.standardize settings).result = .ok r) :
    AlphaEq [] φ r ∧
      ∃ t, (VariableSupply.avoiding settings.naming φ.freeVariables).Issues r.boundVariables t := by
  have spec := ensures_standardizeIn settings.unbound φ (ready_avoiding settings.naming φ)
  rw [standardize] at h
  obtain ⟨alike, issues, -⟩ := spec.of_ok h
  exact ⟨alike, _, issues⟩

/-- `r' = r`: a formula is standardized to the same formula under all settings under which it is. -/
theorem eq_of_standardize (first : (φ.standardize settings).result = .ok r)
    (second : (φ.standardize looser).result = .ok r') : r' = r := by
  obtain ⟨alike, t, issues⟩ := issues_of_standardize first
  obtain ⟨alike', t', issues'⟩ := issues_of_standardize second
  have size : r'.boundVariables.length = r.boundVariables.length :=
    alike'.length_boundVariables.trans alike.length_boundVariables.symm
  -- Both bind the names up to some place, and equally many of them.
  have names : r'.boundVariables = r.boundVariables := issues'.eq_of_length issues rfl rfl size
  exact (AlphaEq.equivalence.trans (AlphaEq.equivalence.symm alike) alike').eq_of_boundVariables
    names

/-- `settings.IsLoosenedBy looser`: what is standardized under some settings is standardized under
looser ones. -/
theorem standardize_of_isLoosenedBy (loosens : settings.IsLoosenedBy looser)
    (h : (φ.standardize settings).result = .ok r) : (φ.standardize looser).result = .ok r := by
  obtain ⟨-, closed, enough⟩ := standardized_of_standardize h
  have closed' : looser.unbound = .permissive ∨ φ.freeVariables = [] := by
    rcases loosens.unbound with strict | same
    · rw [strict] at closed
      exact closed.imp_left fun permissive => nomatch permissive
    · exact same ▸ closed
  have enough' : looser.naming = .unbounded ∨ φ.boundVariables.length ≤
      alphabetSize - (φ.freeVariables.filter fun x => x ∈ letters).length := by
    rcases loosens.naming with alphabet | same
    · rw [alphabet] at enough
      exact .inr (enough.resolve_left fun unbounded => nomatch unbounded)
    · exact same ▸ enough
  obtain ⟨r', h'⟩ := exists_standardize_iff.2 ⟨closed', enough'⟩
  rw [h', eq_of_standardize h h']

/-- `φ.passes looser`: the passes make the same of a formula under looser settings. -/
theorem passes_of_isLoosenedBy (loosens : settings.IsLoosenedBy looser)
    (h : φ.passes settings = .ok r) : φ.passes looser = .ok r := by
  simp only [passes, bind_eq_ok_iff] at h ⊢
  obtain ⟨⟨⟩, valid, ψ, functionFree, χ, standardized, rest⟩ := h
  exact ⟨(), valid, ψ, functionFree, χ, standardize_of_isLoosenedBy loosens standardized, rest⟩

end Formula

namespace Statement

/-- **Looser settings.** A normal form under some settings is the normal form under every setting
that loosens them. -/
theorem normalize_of_isLoosenedBy (s r : Statement) (settings looser : Settings)
    (loosens : settings.IsLoosenedBy looser) (normalized : (s.normalize settings).result = .ok r) :
    (s.normalize looser).result = .ok r := by
  obtain ⟨φ, passed, rfl⟩ := normalize_eq_ok_iff.1 normalized
  exact normalize_of_passes (Formula.passes_of_isLoosenedBy loosens passed)

set_option maxRecDepth 10000 in
/-- The normal form of the statement with nested functions under the tightest settings is its normal
form under the loosest ones. -/
theorem normalize_nestedFunctions_of_isLoosenedBy :
    Settings.IsLoosenedBy ⟨.alphabet, .strict⟩ ⟨.unbounded, .permissive⟩ ∧
      (nestedFunctions.normalize ⟨.alphabet, .strict⟩).result = .ok withoutFunctions ∧
      (nestedFunctions.normalize ⟨.unbounded, .permissive⟩).result = .ok withoutFunctions := by
  have loosens : Settings.IsLoosenedBy ⟨.alphabet, .strict⟩ ⟨.unbounded, .permissive⟩ :=
    ⟨.inl rfl, .inl rfl⟩
  have normalized : (nestedFunctions.normalize ⟨.alphabet, .strict⟩).result =
      .ok withoutFunctions := normalize_of_passes (by cbv)
  exact ⟨loosens, normalized, normalize_of_isLoosenedBy _ _ _ _ loosens normalized⟩

end Statement

end ClausalForm
