import ClausalForm.Proofs.BuiltNodes
import ClausalForm.Proofs.Normalization

/-! # Normal forms as formulas that are checked

A normal form has the shape that the check asks for, whatever the formula was. What it may lack are
names: a function becomes a predicate of the same name, and the check does not look at the names of
functions.

* **`Formula.validate_of_wellFormed`**: on a formula of the right shape the check only looks at the
  names of predicates.
* **`Statement.mem_signature_of_normalize`**: the predicates of a normal form.
* **`Statement.validate_of_normalize`**: when a normal form passes the check. -/

namespace ClausalForm

/-- Checks with one error between them, one after the other. -/
theorem inOrder_map_guards {ε α : Type} {p : α → Prop} [DecidablePred p] {e : ε}
    {f : α → Except ε Unit} {as : List α}
    (each : ∀ a ∈ as, f a = if p a then .ok () else .error e) :
    (inOrder (as.map f) >>= fun _ => .ok ()) =
      if ∀ a ∈ as, p a then .ok () else .error e := by
  induction as with
  | nil => rfl
  | cons a as ih =>
    obtain ⟨first, rest⟩ := List.forall_mem_cons.1 each
    have later := ih rest
    rw [List.map_cons, inOrder, first]
    by_cases here : p a
    · simp only [List.forall_mem_cons, here, true_and]
      rw [← later]
      cases inOrder (as.map f) <;> rfl
    · simp [here, bind, Except.bind]

namespace Formula

variable {leaves : Leaves} {op : Connective} {φ r : Formula} {φs : List Formula}

/-! ## The check -/

/-- `φ.validate`: on a formula of the right shape the check only looks at the names of
predicates. -/
theorem validate_of_wellFormed (h : φ.WellFormed leaves) :
    φ.validate = if ∀ p ∈ φ.signature, p.1 ≠ "" then .ok ()
      else .error (.malformed .unnamedPredicate) := by
  induction h with
  | @atom a _ =>
    rw [validate]
    by_cases unnamed : a.predicate = "" <;> simp [Atom.symbol, unnamed]
  | not _ _ ih => simp only [validate, ih, signature_not]
  | @connective op φs two flat _ ih =>
    have any : φs.any (isConnective op) = false := by simpa using flat
    rw [validate, if_neg (by omega), any, if_neg Bool.false_ne_true]
    refine (inOrder_map_guards ih).trans (if_congr ?_ rfl rfl)
    rw [signature_connective, List.forall_mem_flatMap]
  | @quantified q xs φ binder _ ih =>
    rw [validate, if_neg binder.some, distinct_eq_self_iff.2 binder.nodup,
      if_neg (by simpa using binder.named), ih]
    simp only [signature_quantified]

/-- `p ∈ φ.signature`: the predicates of a formula that passes the check have names. -/
theorem named_of_validate (valid : φ.validate = .ok ()) : ∀ p ∈ φ.signature, p.1 ≠ "" := by
  have check := validate_of_wellFormed (validate_eq_ok_iff.1 valid)
  rw [valid] at check
  by_contra unnamed
  rw [if_neg unnamed] at check
  cases check

/-! ## The shape of a normal form -/

/-- `(joined op φs).WellFormed leaves`: joined members are well-formed if none of them is of the
kind of the connective. -/
theorem WellFormed.joined (some : φs ≠ []) (flat : ∀ φ ∈ φs, φ.isConnective op = false)
    (members : ∀ φ ∈ φs, φ.WellFormed leaves) : (Formula.joined op φs).WellFormed leaves := by
  unfold Formula.joined
  split
  · next φ => exact members φ List.mem_cons_self
  · next several => exact .connective (two_le_length some several) flat members

/-- `(ofConjuncts css).WellFormed leaves`: the form of proper conjuncts is well-formed. -/
theorem wellFormed_ofConjuncts {css : Conjuncts} (proper : Conjuncts.IsProper leaves css) :
    (ofConjuncts css).WellFormed leaves := by
  have plain := isPlain_of_isProper proper
  refine .joined (by simpa using proper.some) (isConnective_joined_or plain)
    (List.forall_mem_map.2 fun c hc => ?_)
  exact .joined (proper.clause c hc) (fun φ hφ => plain c hc φ hφ .or)
    fun φ hφ => (proper.literal c hc φ hφ).2

/-- `(underBlocks bs φ).WellFormed leaves`: a formula under quantifiers is well-formed if these may
bind what they bind. -/
theorem wellFormed_underBlocks {bs : List Block} (binders : ∀ b ∈ bs, IsBinder b.bound)
    (body : φ.WellFormed leaves) : (underBlocks bs φ).WellFormed leaves := by
  induction bs with
  | nil => exact body
  | cons b bs ih =>
    rw [List.forall_mem_cons] at binders
    exact .quantified binders.1 (ih binders.2)

/-- A normal form is well-formed. -/
theorem IsNormal.wellFormed (h : IsNormal leaves r) : r.WellFormed leaves := by
  obtain ⟨css, same, proper⟩ := h.proper
  have under := wellFormed_underBlocks h.binders (same ▸ wellFormed_ofConjuncts proper)
  rwa [underBlocks_blocks_matrix] at under

end Formula

namespace Statement

/-! ## Normal forms of statements -/

/-- `p ∈ r.formula.signature`: the predicates of a normal form are those of the formula, and for
each function the one that takes its place. -/
theorem mem_signature_of_normalize {s r : Statement} {settings : Settings}
    (valid : s.formula.validate = .ok ()) (normalized : (s.normalize settings).result = .ok r)
    (p : String × Nat) : p ∈ r.formula.signature ↔
      p ∈ s.formula.signature ∨ p ∈ s.formula.applications.map graphSymbol := by
  obtain ⟨ψ, eliminated, -, outcome⟩ := exists_outcome_of_validate valid settings
  rw [normalized] at outcome
  cases outcome with
  | form standardized rewrites normal =>
    obtain ⟨renamed, -, -⟩ := Formula.standardized_of_standardize standardized
    exact (rewrites.signature p).trans (renamed.alike.signature_eq ▸ eliminated.signature p)

/-- **Normal forms that pass the check.** A normal form has no functions, its connectives are flat
with two members at least, and its quantifiers bind distinct names. It passes `validate` exactly if
every function of the formula has a name; a function without a name becomes a predicate without
one. -/
theorem validate_of_normalize (s r : Statement) (settings : Settings)
    (valid : s.formula.validate = .ok ()) (normalized : (s.normalize settings).result = .ok r) :
    r.formula.WellFormed (.functionFree fun _ => True) ∧
      r.formula.validate = if ∀ p ∈ s.formula.applications, p.1 ≠ "" then .ok ()
        else .error (.malformed .unnamedPredicate) := by
  have wellFormed : r.formula.WellFormed (.functionFree fun _ => True) := by
    obtain ⟨ψ, -, -, outcome⟩ := exists_outcome_of_validate valid settings
    rw [normalized] at outcome
    cases outcome with
    | form _ _ normal => exact normal.wellFormed.mono (fun _ => id) False.elim
  -- The predicates of the formula itself have names, because it passes the check.
  have named := Formula.named_of_validate valid
  have names : (∀ p ∈ r.formula.signature, p.1 ≠ "") ↔
      ∀ p ∈ s.formula.applications, p.1 ≠ "" := by
    simp only [mem_signature_of_normalize valid normalized, or_imp, forall_and]
    rw [and_iff_right named, List.forall_mem_map]
    rfl
  refine ⟨wellFormed, ?_⟩
  rw [Formula.validate_of_wellFormed wellFormed]
  exact if_congr names rfl rfl

/-- `withoutFunctions` passes the check, as the functions of the statement with nested functions
have names. -/
theorem validate_withoutFunctions :
    nestedFunctions.formula.validate = .ok () ∧
      (nestedFunctions.normalize {}).result = .ok withoutFunctions ∧
      withoutFunctions.formula.validate = .ok () := by
  refine ⟨validate_nestedFunctions, normalize_nestedFunctions, ?_⟩
  have check :=
    (validate_of_normalize _ _ {} validate_nestedFunctions normalize_nestedFunctions).2
  simpa [applications_nestedFunctions] using check

/-- The statement `P(())`, read from a text with an empty quoted string as a constant. -/
def emptyQuotation : Statement where
  formula := .atom ⟨"P", [.app "" []]⟩
  source := some "(P \x27\x27)"

/-- Its normal form `∀(z)[(~(z) | P(z))]`, in which the constant is a predicate. -/
def emptyPredicate : Statement where
  formula := .quantified .universal ["z"]
    (.connective .or [.not (.atom ⟨"", [.var "z"]⟩), .atom ⟨"P", [.var "z"]⟩])
  source := some "(P \x27\x27)"

set_option maxRecDepth 10000 in
/-- `(P '')`: a statement that is read from a text and passes the check, with a normal form that
does not. The empty quoted string is a constant without a name, and becomes a predicate without
one. -/
theorem unnamed_predicate_of_empty_quotation :
    (Clif.Document.read "(P \x27\x27)").result = .ok { statements := [emptyQuotation] } ∧
      emptyQuotation.formula.validate = .ok () ∧
      (emptyQuotation.normalize {}).result = .ok emptyPredicate ∧
      emptyPredicate.formula.validate = .error (.malformed .unnamedPredicate) := by
  refine ⟨?_, by cbv, ?_, by cbv⟩
  · rw [Clif.Document.result_read]
    cbv
  · exact normalize_of_passes (by cbv)

end Statement

end ClausalForm
