import ClausalForm.Json.Decode
import ClausalForm.Statement

/-! # Formulas as JSON

The JSON forms of terms, formulas, clauses and statements, written by `toJson` and read by
`ofJson?`. A formula is a variant, such as `{"Not": …}`; its parts are records and lists. Reading a
nested value takes the number of arrays and objects that may still enclose each other. -/

namespace ClausalForm

open Json (ofFields ofString ofStrings)

/-- The names of the connectives. -/
def Connective.choices : List (String × Connective) := [("And", .and), ("Or", .or)]

/-- The names of the quantifiers. -/
def Quantifier.choices : List (String × Quantifier) :=
  [("Forall", .universal), ("Exists", .existential)]

/-- `q.toJson`: a quantifier as JSON, by its name. -/
def Quantifier.toJson : Quantifier → Json
  | universal => ofString "Forall"
  | existential => ofString "Exists"

/-- `op.toJson`: a connective as JSON, by its name. -/
def Connective.toJson : Connective → Json
  | and => ofString "And"
  | or => ofString "Or"

/-- The quantifier that a JSON value stands for, where `nothing` tells an empty value. -/
def Quantifier.ofJson? (nothing : Json → Bool) : Json → Option Quantifier :=
  Json.choice? choices nothing

/-- The connective that a JSON value stands for. -/
def Connective.ofJson? : Json → Option Connective := Json.choice? choices Json.isNull

namespace Term

/-- A term as JSON. -/
def toJson : Term → Json
  | .var x => ofFields [("Variable", ofString x)]
  | .app f args =>
    ofFields [("Function", ofFields [("name", ofString f), ("args", .array (args.map toJson))])]

/-- `Term.ofJson? depth value`: the term that a JSON value stands for. No more than `depth` arrays
and objects may enclose each other in it. -/
def ofJson? : Nat → Json → Option Term
  | 0, _ => none
  | depth + 1, value => do
    match ← value.variant?, depth with
    | ("Variable", some x), _ => return .var (← x.string?)
    | ("Function", some application), depth + 2 =>
      match ← application.fullRecord? ["name", "args"] with
      | [some name, some args] => return .app (← name.string?) (← args.list? (ofJson? depth))
      | _ => none
    | _, _ => none

end Term

namespace Atom

/-- An atom as JSON. -/
def toJson (a : Atom) : Json :=
  ofFields [("name", ofString a.predicate), ("args", .array (a.args.map Term.toJson))]

/-- `Atom.ofJson? depth value`: the atom that a JSON value stands for, read down to a depth. -/
def ofJson? : Nat → Json → Option Atom
  | depth + 2, value => do
    match ← value.fullRecord? ["name", "args"] with
    | [some name, some args] => return ⟨← name.string?, ← args.list? (Term.ofJson? depth)⟩
    | _ => none
  | _, _ => none

end Atom

namespace Formula

/-- `φ.toJson`: a formula as JSON, tagged by its kind. -/
def toJson : Formula → Json
  | .atom a => ofFields [("Predicate", a.toJson)]
  | .not φ => ofFields [("Not", φ.toJson)]
  | .connective op φs => ofFields [("Connective", .array [op.toJson, .array (φs.map toJson)])]
  | .quantified q xs φ =>
    ofFields [("Quantified", .array [q.toJson, ofStrings xs, φ.toJson])]

/-- `Formula.ofJson? depth value`: the formula that a JSON value stands for, read down to a depth.
What it holds need not pass `validate`. -/
def ofJson? : Nat → Json → Option Formula
  | 0, _ => none
  | depth + 1, value => do
    match ← value.variant?, depth with
    | ("Predicate", some a), depth => return .atom (← Atom.ofJson? depth a)
    | ("Not", some φ), depth => return .not (← ofJson? depth φ)
    | ("Connective", some (.array [op, φs])), depth + 2 =>
      return .connective (← Connective.ofJson? op) (← φs.list? (ofJson? depth))
    | ("Quantified", some (.array [q, xs, φ])), depth + 2 =>
      return .quantified (← Quantifier.ofJson? Json.isNull q) (← xs.strings?)
        (← ofJson? (depth + 1) φ)
    | _, _ => none

end Formula

/-- A literal as JSON. -/
def Literal.toJson (l : Literal) : Json :=
  ofFields [("predicate", l.atom.toJson), ("polarity", .bool l.positive)]

/-- `Literal.ofJson? depth value`: the literal that a JSON value stands for, read down to a
depth. -/
def Literal.ofJson? (depth : Nat) (value : Json) : Option Literal := do
  match ← value.fullRecord? ["predicate", "polarity"] with
  | [some a, some positive] => return ⟨← Atom.ofJson? (depth - 1) a, ← positive.bool?⟩
  | _ => none

/-- A clause as JSON. -/
def Clause.toJson (c : Clause) : Json :=
  ofFields [("literals", .array (c.literals.map Literal.toJson))]

/-- The clause that a JSON value stands for. -/
def Clause.ofJson? (value : Json) : Option Clause := do
  match ← value.fullRecord? ["literals"] with
  | [some literals] => return ⟨← literals.list? (Literal.ofJson? (Json.nestingLimit - 2))⟩
  | _ => none

/-- A block of quantified variables as JSON. -/
def Block.toJson (b : Block) : Json :=
  ofFields [("quantifier", b.quantifier.toJson), ("variables", ofStrings b.bound)]

/-- The block that a JSON value stands for, where `nothing` tells an empty value. -/
def Block.ofJson? (nothing : Json → Bool) (value : Json) : Option Block := do
  match ← value.fullRecord? ["quantifier", "variables"] with
  | [some q, some xs] => return ⟨← Quantifier.ofJson? nothing q, ← xs.strings?⟩
  | _ => none

/-- `s.toJson`: a statement as JSON. A missing source is left out. -/
def Statement.toJson (s : Statement) : Json :=
  ofFields <| ("term", s.formula.toJson) :: s.source.toList.map fun text =>
    ("source", ofString text)

/-- The statement that a JSON value stands for. -/
def Statement.ofJson? (value : Json) : Option Statement := do
  match ← value.fullRecord? ["term", "source"] with
  | [some φ, source] =>
    return ⟨← Formula.ofJson? (Json.nestingLimit - 1) φ, ← Json.optional? source⟩
  | _ => none

end ClausalForm
