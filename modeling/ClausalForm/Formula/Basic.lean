import ClausalForm.Term

/-! # Formulas

A formula is an atom, a negation, a conjunction or disjunction of a list of formulas, or a
quantifier over a list of variables. The type admits every such tree, well-formed or not; what a
well-formed formula is stands in `ClausalForm.Formula.Validate`.

* **`Connective`**, **`Quantifier`**: the two kinds of each, with their duals and signs.
* **`Formula.induction`**: induction with a hypothesis for each member of a connective.
* **`Formula.text`**: the printed form, as `∀(x,y)[(A(x) | ~B(y))]`. -/

namespace ClausalForm

/-- The two connectives, `&` and `|`. -/
inductive Connective where
  | and
  | or
deriving Repr, DecidableEq, Inhabited

/-- The two quantifiers, `∀` and `∃`. -/
inductive Quantifier where
  | universal
  | existential
deriving Repr, DecidableEq, Inhabited

namespace Connective

/-- `op.dual`: the connective that a negation turns this one into. -/
def dual : Connective → Connective
  | and => or
  | or => and

/-- `op.sign`: the sign between the members in the printed form. -/
def sign : Connective → String
  | and => "&"
  | or => "|"

/-- `op.name`: the name used in messages. -/
def name : Connective → String
  | and => "And"
  | or => "Or"

/-- The quantifier that distributes over this connective: `∀` over `&`, `∃` over `|`. -/
def distributing : Connective → Quantifier
  | and => .universal
  | or => .existential

end Connective

namespace Quantifier

/-- `q.dual`: the quantifier that a negation turns this one into. -/
def dual : Quantifier → Quantifier
  | universal => existential
  | existential => universal

/-- `q.sign`: the sign in front of the variables in the printed form. -/
def sign : Quantifier → String
  | universal => "∀"
  | existential => "∃"

/-- `q.distributesOver`: the connective over which this quantifier distributes, the inverse of
`Connective.distributing`. -/
def distributesOver : Quantifier → Connective
  | universal => .and
  | existential => .or

@[simp] theorem distributesOver_distributing (op : Connective) :
    op.distributing.distributesOver = op := by cases op <;> rfl

end Quantifier

/-- **A first-order formula** over connectives of any number of members and quantifiers over any
number of variables. What `validate` asks for is not part of the type. -/
inductive Formula where
  /-- An atomic formula. -/
  | atom (a : Atom)
  /-- A negation. -/
  | not (body : Formula)
  /-- A conjunction or disjunction of its members. -/
  | connective (op : Connective) (members : List Formula)
  /-- A quantifier over a list of variables. -/
  | quantified (q : Quantifier) (bound : List String) (body : Formula)
deriving Repr, BEq, Inhabited

namespace Formula

/-- Induction on formulas. In the case of a `connective`, the property may be used for every
member. -/
@[elab_as_elim]
theorem induction {motive : Formula → Prop} (atom : ∀ a, motive (.atom a))
    (not : ∀ φ, motive φ → motive (.not φ))
    (connective : ∀ op φs, (∀ φ ∈ φs, motive φ) → motive (.connective op φs))
    (quantified : ∀ q xs φ, motive φ → motive (.quantified q xs φ)) (φ : Formula) : motive φ :=
  match φ with
  | .atom a => atom a
  | .not φ => not φ (induction atom not connective quantified φ)
  | .connective op φs =>
    connective op φs fun φ _ => induction atom not connective quantified φ
  | .quantified q xs φ => quantified q xs φ (induction atom not connective quantified φ)

/-! ## Parts of a formula -/

/-- `φ.atom?`: the atom, if `φ` is one. -/
def atom? : Formula → Option Atom
  | .atom a => some a
  | _ => none

/-- `φ.boundHere?`: the variables that the quantifier at the root binds. -/
def boundHere? : Formula → Option (List String)
  | .quantified _ xs _ => some xs
  | _ => none

/-- `φ.body?`: the body of the quantifier or negation at the root. -/
def body? : Formula → Option Formula
  | .quantified _ _ φ => some φ
  | .not φ => some φ
  | _ => none

/-- `φ.members?`: the members of the connective at the root. -/
def members? : Formula → Option (List Formula)
  | .connective _ φs => some φs
  | _ => none

/-- `φ.connective?`: the kind of the connective at the root. -/
def connective? : Formula → Option Connective
  | .connective op _ => some op
  | _ => none

/-- `φ.quantifier?`: the kind of the quantifier at the root. -/
def quantifier? : Formula → Option Quantifier
  | .quantified q _ _ => some q
  | _ => none

/-- Whether a formula is atomic. -/
def isAtom : Formula → Bool
  | .atom _ => true
  | _ => false

/-- `φ.isLiteral`: whether a formula is an atom or the negation of an atom. -/
def isLiteral : Formula → Bool
  | .atom _ => true
  | .not φ => φ.isAtom
  | _ => false

/-- Whether a formula is a quantifier. -/
def isQuantified : Formula → Bool
  | .quantified .. => true
  | _ => false

/-- `φ.isConnective op`: whether the root is a connective of the kind `op`. -/
def isConnective (op : Connective) : Formula → Bool
  | .connective op' _ => op' = op
  | _ => false

/-- `φ.hasFunctions`: whether some atom has an argument that applies a function. -/
def hasFunctions : Formula → Bool
  | .atom a => a.hasFunctions
  | .not φ => φ.hasFunctions
  | .connective _ φs => (φs.map hasFunctions).any id
  | .quantified _ _ φ => φ.hasFunctions

/-! ## Printed form -/

/-- `φ.text`: the printed form. Each connective is enclosed in parentheses with its sign between the
members, each body of a quantifier in brackets, as in `∀(x)[(A(x) | ~B(x))]`. -/
def text : Formula → String
  | .atom a => a.text
  | .not φ => "~" ++ φ.text
  | .connective op φs => "(" ++ (" " ++ op.sign ++ " ").intercalate (φs.map text) ++ ")"
  | .quantified q xs φ => q.sign ++ "(" ++ ",".intercalate xs ++ ")[" ++ φ.text ++ "]"

instance : ToString Formula := ⟨text⟩

end Formula

end ClausalForm
