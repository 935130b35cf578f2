import ClausalForm.Json.Formula

/-! # Reports

What is reported about the normalization of one statement: the normal form with its blocks and
clauses, or the stage that failed and why.

* **`LiteralReport`**, **`ClauseReport`**: clauses with the arguments as text.
* **`Report`**: the report; `Report.ofResult` makes it, `toJson` and `ofJson?` write and read it.
  A report is tagged: its variant is named by the field `result` of one record. -/

namespace ClausalForm

open Json (ofFields ofString ofStrings)

/-- A literal with its arguments as text. -/
structure LiteralReport where
  positive : Bool
  predicate : String
  args : List String
deriving Repr, DecidableEq, Inhabited

/-- A clause with the arguments of its literals as text. -/
structure ClauseReport where
  literals : List LiteralReport
deriving Repr, DecidableEq, Inhabited

/-- The report about a statement. -/
inductive Report where
  | normalized (source : Option String) (text : String) (blocks : List Block)
      (clauses : List ClauseReport)
  | failed (stage label message : String)
deriving Repr, DecidableEq, Inhabited

namespace LiteralReport

/-- `LiteralReport.ofLiteral l`: the report of a literal. -/
def ofLiteral (l : Literal) : LiteralReport :=
  ⟨l.positive, l.atom.predicate, l.atom.args.map Term.text⟩

/-- `l.toJson`: a literal as JSON. The field `args` is left out if there are no arguments, although
`ofJson?` asks for it. -/
def toJson (l : LiteralReport) : Json :=
  ofFields <| [("polarity", .bool l.positive), ("predicate", ofString l.predicate)] ++
    if l.args.isEmpty then [] else [("args", ofStrings l.args)]

/-- `LiteralReport.ofJson? value`: the literal that a JSON value stands for. Its arguments have to
be there. -/
def ofJson? (value : Json) : Option LiteralReport := do
  match ← value.fullRecord? ["polarity", "predicate", "args"] with
  | [some positive, some predicate, some args] =>
    return ⟨← positive.bool?, ← predicate.string?, ← args.strings?⟩
  | _ => none

end LiteralReport

namespace ClauseReport

/-- `ClauseReport.ofClause c`: the report of a clause. -/
def ofClause (c : Clause) : ClauseReport := ⟨c.literals.map .ofLiteral⟩

/-- `c.toJson`: a clause as JSON. -/
def toJson (c : ClauseReport) : Json :=
  ofFields [("literals", .array (c.literals.map LiteralReport.toJson))]

/-- `ClauseReport.ofJson? value`: the clause that a JSON value stands for. -/
def ofJson? (value : Json) : Option ClauseReport := do
  match ← value.fullRecord? ["literals"] with
  | [some literals] => return ⟨← literals.list? LiteralReport.ofJson?⟩
  | _ => none

end ClauseReport

namespace Report

/-- `Report.ofStatement s`: the report about a statement as it stands. A formula that is not in
clausal form is reported without clauses. -/
def ofStatement (s : Statement) : Report :=
  let clauses :=
    match s.formula.clauses with
    | .ok clauses => clauses
    | .error _ => []
  .normalized s.source s.formula.text s.formula.blocks (clauses.map .ofClause)

/-- `Report.ofFailure f`: the report about a failure. -/
def ofFailure (f : StageFailure) : Report := .failed f.stage.name f.label f.error.message

/-- `Report.ofResult result`: the report about the result of a normalization. -/
def ofResult : Except StageFailure Statement → Report
  | .ok s => ofStatement s
  | .error f => ofFailure f

/-- `r.toJson`: a report as JSON, tagged by the field `result`. A missing source is left out. -/
def toJson : Report → Json
  | normalized source text blocks clauses =>
    ofFields <| ("result", ofString "Normalized") ::
      (source.toList.map fun s => ("source", ofString s)) ++
      [("ff_pcnf", ofString text), ("prefix", .array (blocks.map Block.toJson)),
        ("clauses", .array (clauses.map ClauseReport.toJson))]
  | failed stage label message =>
    ofFields [("result", ofString "Failed"), ("stage", ofString stage),
      ("axiom", ofString label), ("error", ofString message)]

/-- `untag? value`: the tag of a tagged record, and the record without it. In an array the tag
stands first. -/
def untag? : Json → Option (String × Json)
  | .object members => do
    let named ← Json.named? members
    guard (Json.unrepeated ["result"] named)
    let tag ← named.lookup "result"
    return (← tag.string?, ofFields (named.filter fun m => m.1 ≠ "result"))
  | .array (tag :: items) => do
    return (← tag.string?, .array items)
  | _ => none

/-- `Report.ofJson? value`: the report that a JSON value stands for. As the tag may stand anywhere,
the whole value has to be held in memory first, see `Json.isPlain`. -/
def ofJson? (value : Json) : Option Report := do
  guard value.isPlain
  match ← untag? value with
  | ("Normalized", record) =>
    match ← record.fullRecord? ["source", "ff_pcnf", "prefix", "clauses"] with
    | [source, some text, some blocks, some clauses] =>
      return .normalized (← Json.optional? source) (← text.string?)
        (← blocks.list? (Block.ofJson? Json.isEmpty)) (← clauses.list? ClauseReport.ofJson?)
    | _ => none
  | ("Failed", record) =>
    match ← record.fullRecord? ["stage", "axiom", "error"] with
    | [some stage, some label, some message] =>
      return .failed (← stage.string?) (← label.string?) (← message.string?)
    | _ => none
  | _ => none

end Report

end ClausalForm
