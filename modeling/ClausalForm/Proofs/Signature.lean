import ClausalForm.Proofs.Separation

/-! # Predicates of a formula

The predicates that a formula uses, each with its number of arguments. The passes move, merge and
copy atoms, but they neither lose the last atom of a predicate nor make up a new predicate, except
for those that take the place of functions.

* **`Formula.signature`**: the predicates, one entry for each atom.
* **`Formula.signature_of_combine`**, **`Formula.signature_rename`**: building a connective and
  renaming variables keep them. -/

namespace ClausalForm

/-- `a.symbol`: the predicate of an atom with the number of its arguments. -/
def Atom.symbol (a : Atom) : String × Nat := (a.predicate, a.args.length)

/-- `(a.rename f).symbol`: renaming variables keeps the predicate. -/
@[simp] theorem Atom.symbol_rename (f : String → String) (a : Atom) :
    (a.rename f).symbol = a.symbol := by
  rw [symbol, symbol, rename, List.length_map]

namespace Formula

/-- `φ.signature`: the predicates of a formula, one entry for each atom, from left to right. -/
def signature : Formula → List (String × Nat)
  | .atom a => [a.symbol]
  | .not φ => φ.signature
  | .connective _ φs => φs.flatMap signature
  | .quantified _ _ φ => φ.signature

/-- An atom uses its predicate only. -/
@[simp] theorem signature_atom (a : Atom) : (Formula.atom a).signature = [a.symbol] := by
  rw [signature]

/-- A negation uses what its body uses. -/
@[simp] theorem signature_not (φ : Formula) : (Formula.not φ).signature = φ.signature := by
  rw [signature]

/-- A connective uses what its members use. -/
@[simp] theorem signature_connective (op : Connective) (φs : List Formula) :
    (Formula.connective op φs).signature = φs.flatMap signature := by
  rw [signature]

/-- A quantifier uses what its body uses. -/
@[simp] theorem signature_quantified (q : Quantifier) (xs : List String) (φ : Formula) :
    (Formula.quantified q xs φ).signature = φ.signature := by
  rw [signature]

/-- `quantify q xs φ` uses what its body uses. -/
@[simp] theorem signature_quantify (q : Quantifier) (xs : List String) (φ : Formula) :
    (quantify q xs φ).signature = φ.signature := by
  unfold quantify
  split
  · rfl
  · rw [signature_quantified]

/-- `combine op φs = .ok ψ`: a built connective uses what its members use. -/
theorem signature_of_combine {op : Connective} {φs : List Formula} {ψ : Formula}
    (built : combine op φs = .ok ψ) : ψ.signature = φs.flatMap signature :=
  collect_of_combine signature_connective built

/-- `(φ.rename m).signature`: renaming variables keeps the predicates. -/
@[simp] theorem signature_rename (m : Renaming) (φ : Formula) :
    (φ.rename m).signature = φ.signature := by
  induction φ using induction generalizing m with
  | atom a => rw [rename, signature_atom, signature_atom, Atom.symbol_rename]
  | not φ ih => rw [rename, signature_not, signature_not, ih]
  | connective op φs ih =>
    rw [rename, signature_connective, signature_connective, List.flatMap_map]
    exact List.flatMap_congr fun φ mem => ih φ mem m
  | quantified q xs φ ih => rw [rename, signature_quantified, signature_quantified, ih]

end Formula

end ClausalForm
