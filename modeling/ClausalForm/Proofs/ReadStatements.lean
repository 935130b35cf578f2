import ClausalForm.Proofs.Normalization
import ClausalForm.Proofs.Sentences
import ClausalForm.Proofs.Wrappers

/-! # Statements that are read from a text

Each statement of a document is a sentence with no quantifier around it, so that it is well-formed
and closed. Nothing is left that could stop its normalization, except that the alphabet may be too
short.

* **`Clif.Document.reads_of_read`**: each statement of a document is read from some node.
* **`Clif.Document.normalizable_of_read`**: each statement of a document can be normalized. -/

namespace ClausalForm

/-! ## Closed statements -/

namespace Statement

variable {s : Statement}

/-- `s.normalize {}`: a well-formed statement without free variables has a normal form. -/
theorem exists_normalize_of_closed (valid : s.formula.validate = .ok ())
    (closed : s.formula.freeVariables = []) : ∃ r, (s.normalize {}).result = .ok r := by
  obtain ⟨ψ, eliminated, -, outcome⟩ := exists_outcome_of_validate valid {}
  have none := (closed ▸ Formula.freeVariables_perm eliminated.free).eq_nil
  rw [outcome.exists_ok_iff, Formula.exists_standardize_iff]
  exact ⟨.inr none, .inl rfl⟩

/-- `s.normalize .legacy`: with one round of names, a well-formed statement has a normal form or the
names are used up. -/
theorem normalize_legacy_cases (valid : s.formula.validate = .ok ()) :
    (∃ r, (s.normalize .legacy).result = .ok r) ∨
      ∃ f, (s.normalize .legacy).result = .error f ∧ f.stage = .variableStandardization ∧
        f.error = .tooManyVariables 26 := by
  obtain ⟨ψ, -, -, outcome⟩ := exists_outcome_of_validate valid .legacy
  generalize (s.normalize .legacy).result = result at outcome
  cases outcome with
  | form => exact .inl ⟨_, rfl⟩
  | failure label failed =>
    rcases Formula.of_standardize_eq_error failed with ⟨strict, -⟩ | ⟨-, -, exhausted⟩
    · cases strict
    · exact .inr ⟨_, rfl, rfl, exhausted⟩

end Statement

namespace Clif.Document

variable {text : List Char} {node : Node} {d : Document}

/-! ## Documents -/

/-- `ofSentence text node = .ok d`: the statement of a sentence is read from it. -/
theorem reads_of_ofSentence (h : ofSentence text node = .ok d) :
    ∀ s ∈ d.statements, Reads [] node s.formula := by
  obtain ⟨φ, read, same⟩ := bind_eq_ok_iff.1 h
  obtain rfl := Except.ok.inj same
  exact List.forall_mem_singleton.2 (reads_of_sentence read)

/-- `(read text).result = .ok d`: the statements of a text are read from sentences in it. -/
theorem reads_of_read {text : String} (h : (read text).result = .ok d) :
    ∀ s ∈ d.statements, ∃ node : Node, node.Lexical ∧ Reads [] node s.formula := by
  intro s mem
  obtain ⟨own, node, among, built, -, read⟩ := exists_sentence_of_read h s mem
  have lexical := built.builtFrom fun t mem => lexical_of_mem_tokens _ t (among.subset mem)
  exact ⟨node, (lexical node List.mem_cons_self).lexical,
    reads_of_ofSentence read s List.mem_cons_self⟩

/-- **Statements that are read can be normalized.** Every statement of `read text` is well-formed
and closed. By default it has a normal form, and with one round of names it has one or the names are
used up. -/
theorem normalizable_of_read (text : String) (d : Document) (h : (read text).result = .ok d) :
    ∀ s ∈ d.statements, s.formula.validate = .ok () ∧ s.formula.freeVariables = [] ∧
      (∃ r, (s.normalize {}).result = .ok r) ∧
      ((∃ r, (s.normalize .legacy).result = .ok r) ∨
        ∃ f, (s.normalize .legacy).result = .error f ∧ f.error = .tooManyVariables 26) := by
  intro s mem
  obtain ⟨node, lexical, sentence⟩ := reads_of_read h s mem
  have valid := Formula.validate_eq_ok_iff.2 (sentence.wellFormed lexical)
  have closed : s.formula.freeVariables = [] := by
    rw [List.eq_nil_iff_forall_not_mem]
    intro x free
    exact List.not_mem_nil (sentence.mem_of_free x (Formula.mem_freeVariables.1 free))
  refine ⟨valid, closed, Statement.exists_normalize_of_closed valid closed, ?_⟩
  refine (Statement.normalize_legacy_cases valid).imp_right ?_
  rintro ⟨f, failed, -, exhausted⟩
  exact ⟨f, failed, exhausted⟩

/-- The text `(forall (x) (if (P x) (< (f x) c)))`. -/
def comparison : String := "(forall (x) (if (P x) (< (f x) c)))"

/-- The document with the statement `∀(x)[(~P(x) | lt(f(x),c()))]`. -/
def comparisonRead : Document where
  statements := [{
    formula := .quantified .universal ["x"] (.connective .or [.not (.atom ⟨"P", [.var "x"]⟩),
      .atom ⟨"lt", [.app "f" [.var "x"], .app "c" []]⟩])
    source := comparison }]

set_option maxRecDepth 10000 in
/-- The text is read. -/
theorem read_comparison : (read comparison).result = .ok comparisonRead := by
  rw [result_read]
  cbv

/-- The sentence that is read from the text can be normalized. -/
theorem exists_normalize_comparison :
    (read comparison).result = .ok comparisonRead ∧ ∃ s ∈ comparisonRead.statements,
      s.formula.validate = .ok () ∧ ∃ r, (s.normalize {}).result = .ok r := by
  have all := normalizable_of_read comparison comparisonRead read_comparison
  obtain ⟨valid, -, normal, -⟩ := all _ List.mem_cons_self
  exact ⟨read_comparison, _, List.mem_cons_self, valid, normal⟩

end Clif.Document

end ClausalForm
