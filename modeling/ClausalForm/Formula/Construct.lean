import ClausalForm.NormalizationError

/-! # Construction of formulas

Connectives are flattened where they are built: a conjunction built from another conjunction
absorbs its members instead of nesting it.

* **`Formula.spliced`**: the members, those of the same kind replaced by their own members.
* **`Formula.combine`**: a connective of the spliced members; one member stands for itself, no
  member is an error.
* **`Formula.conjoin`**, **`Formula.disjoin`**: the connective of two formulas.
* **`Formula.quantify`**: a quantifier over the distinct variables of a list; no variables, no
  quantifier. -/

namespace ClausalForm

/-- `distinct xs`: the elements of a list without repetitions, each at its first place. -/
def distinct : List String → List String
  | [] => []
  | x :: xs => x :: (distinct xs).filter (· ≠ x)

/-- `x ∈ distinct xs ↔ x ∈ xs`: leaving out repetitions keeps every element. -/
@[simp] theorem mem_distinct {x : String} {xs : List String} : x ∈ distinct xs ↔ x ∈ xs := by
  induction xs with
  | nil => simp [distinct]
  | cons y ys ih => by_cases h : x = y <;> simp [distinct, ih, h]

/-- No element is left twice. -/
theorem nodup_distinct (xs : List String) : (distinct xs).Nodup := by
  induction xs with
  | nil => simp [distinct]
  | cons y ys ih =>
    refine List.nodup_cons.2 ⟨by simp, ih.sublist List.filter_sublist⟩

namespace Formula

/-- The members of a connective of kind `op`; any other formula counts as the only member. -/
def membersOf (op : Connective) : Formula → List Formula
  | .connective op' φs => if op' = op then φs else [.connective op' φs]
  | φ => [φ]

/-- The members of a connective of kind `op` built from `φs`. -/
def spliced (op : Connective) (φs : List Formula) : List Formula :=
  φs.flatMap (membersOf op)

/-- The connective of `φs`, flattened. A single remaining member is returned as it is. -/
def combine (op : Connective) (φs : List Formula) : Except NormalizationError Formula :=
  match spliced op φs with
  | [] => .error (.malformed (.noMembers op))
  | [φ] => .ok φ
  | ψs => .ok (.connective op ψs)

/-- `conjoin φ ψ`: the conjunction of two formulas, with the members of a conjunction in place of
it. -/
def conjoin (φ ψ : Formula) : Formula := .connective .and (spliced .and [φ, ψ])

/-- `disjoin φ ψ`: the disjunction of two formulas, with the members of a disjunction in place of
it. -/
def disjoin (φ ψ : Formula) : Formula := .connective .or (spliced .or [φ, ψ])

/-- A quantifier over the distinct variables among `xs`, or the body itself if there are none. -/
def quantify (q : Quantifier) (xs : List String) (φ : Formula) : Formula :=
  match distinct xs with
  | [] => φ
  | ys => .quantified q ys φ

/-- `combine op φs = .error e`: a connective cannot be built exactly if `spliced op φs` leaves
nothing to build it from. -/
theorem combine_eq_error_iff {op : Connective} {φs : List Formula} {e : NormalizationError} :
    combine op φs = .error e ↔ spliced op φs = [] ∧ e = .malformed (.noMembers op) := by
  unfold combine
  split
  · next h => simp only [h, true_and, Except.error.injEq, eq_comm]
  · next h => simp [h]
  · next h _ => exact ⟨nofun, fun hs => (h hs.1).elim⟩

/-- A list that is neither empty nor a single element has two elements at least. -/
theorem two_le_length {α : Type} {as : List α} (some : as ≠ []) (several : ∀ a, as ≠ [a]) :
    2 ≤ as.length := by
  match as with
  | [] => exact absurd rfl some
  | [a] => exact absurd rfl (several a)
  | _ :: _ :: _ => simp

/-- `combine op φs = .ok ψ`: what is built is the only formula that `spliced op φs` leaves, or the
connective of all of them. -/
theorem spliced_of_combine {op : Connective} {φs : List Formula} {ψ : Formula}
    (h : combine op φs = .ok ψ) :
    spliced op φs = [ψ] ∨ 2 ≤ (spliced op φs).length ∧ ψ = .connective op (spliced op φs) := by
  unfold combine at h
  split at h
  · simp at h
  · next χ hs => exact .inl (by rw [hs, Except.ok.inj h])
  · next some several => exact .inr ⟨two_le_length some several, (Except.ok.inj h).symm⟩

end Formula

end ClausalForm
