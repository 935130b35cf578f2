import ClausalForm.Clif.Node
import ClausalForm.Clif.SyntaxError
import ClausalForm.Formula.Construct

/-! # Sentences of the interchange text

A sentence is a symbol, which is an atom without arguments, or a list that starts with one: a
keyword with its operands, or a predicate with its terms. A name in the place of a term is a
variable if an enclosing quantifier binds it, and a constant otherwise.

* **`Keyword`**: the operators with a meaning of their own.
* **`term`**: the term that a node stands for.
* **`variableName`**: the variable that a node declares, its sort left out.
* **`sentence`**: the formula that a node stands for. -/

namespace ClausalForm.Clif

/-- The operators with a meaning of their own. Any other name is a predicate. -/
inductive Keyword where
  | quantifier (q : Quantifier)
  | connective (op : Connective)
  | negation
  | implication
  | equivalence
deriving Repr, DecidableEq

/-- `Keyword.ofName? name`: the keyword that a symbol is, if it is one. -/
def Keyword.ofName? : String → Option Keyword
  | "forall" => some (.quantifier .universal)
  | "exists" => some (.quantifier .existential)
  | "and" => some (.connective .and)
  | "or" => some (.connective .or)
  | "not" => some .negation
  | "if" => some .implication
  | "iff" => some .equivalence
  | _ => none

/-- The term that a node stands for below quantifiers that bind the variables `bound`. -/
def term (bound : List String) : Node → Except PlacedFault Term
  | .symbol name _ => .ok (if bound.contains name then .var name else .of name [])
  | .quoted text _ => .ok (.of text [])
  | .list [] start _ => .error ⟨.emptyTerm, start⟩
  | .list (.symbol function _ :: args) _ _ => do
    let ts ← inOrder (args.map (term bound))
    return .of function ts
  | .list (head :: _) _ _ => .error ⟨.noFunctionName, head.start⟩

/-- `variableName node`: the variable that a node declares, by a symbol or a list of a symbol and
its sort. -/
def variableName : Node → Except PlacedFault String
  | .symbol name _ => .ok name
  | .list [.symbol name _, _] _ _ => .ok name
  | node => .error ⟨.noVariableName, node.start⟩

/-- `variableNames node`: the variables that a node declares by a list of at least one. -/
def variableNames : Node → Except PlacedFault (List String)
  | .list (item :: items) _ _ => inOrder ((item :: items).map variableName)
  | node => .error ⟨.noVariableList, node.start⟩

/-- The formula that a node stands for below quantifiers that bind the variables `bound`. -/
def sentence (bound : List String) : Node → Except PlacedFault Formula
  | .symbol name _ => .ok (.atom (.of name []))
  | .quoted _ start => .error ⟨.quotedSentence, start⟩
  | .list [] start _ => .error ⟨.emptySentence, start⟩
  | .list (.symbol operator _ :: operands) start _ =>
    let wrongCount (expected : Nat) : PlacedFault :=
      ⟨.wrongOperandCount operator expected operands.length, start⟩
    match Keyword.ofName? operator, operands with
    -- Any other symbol in front is the name of a predicate.
    | none, args => do
      let ts ← inOrder (args.map (term bound))
      return .atom (.of operator ts)
    | some (.quantifier q), [declarations, body] => do
      let xs ← variableNames declarations
      let φ ← sentence (xs ++ bound) body
      return .quantify q xs φ
    | some (.quantifier _), _ => .error (wrongCount 2)
    | some (.connective _), [] => .error ⟨.noOperands, start⟩
    | some (.connective op), members => do
      let φs ← inOrder (members.map (sentence bound))
      (Formula.combine op φs).mapError fun e => ⟨.refused e, start⟩
    | some .negation, [body] => do
      let φ ← sentence bound body
      return .not φ
    | some .negation, _ => .error (wrongCount 1)
    | some .implication, [antecedent, consequent] => do
      let φ ← sentence bound antecedent
      let ψ ← sentence bound consequent
      return .disjoin (.not φ) ψ
    | some .implication, _ => .error (wrongCount 2)
    | some .equivalence, [left, right] => do
      let φ ← sentence bound left
      let ψ ← sentence bound right
      return .conjoin (.disjoin (.not φ) ψ) (.disjoin (.not ψ) φ)
    | some .equivalence, _ => .error (wrongCount 2)
  | .list (head :: _) _ _ => .error ⟨.noOperator, head.start⟩

end ClausalForm.Clif
