import ClausalForm.Input
import ClausalForm.Report

/-! # The command line

The program reads one file of sentences and prints the normal form of each, as text or as one JSON
object a line. Failures go to the error output, and the exit status tells of them.

* **`Options`**, **`UsageError`**: what the arguments ask for, or what is wrong with them.
* **`Options.parse`**: the arguments read from left to right.
* **`Answer`**: the exit status and what is printed.
* **`run`**: the whole program, for any way to read files. -/

namespace ClausalForm.CommandLine

/-- What is wrong with the arguments. -/
inductive UsageError where
  /-- The usage was asked for, or no input file was given. -/
  | usage
  | noSettingsFile
  | unknownOption (option : String)
  | secondInput
deriving Repr, DecidableEq, Inhabited

/-- `e.lines`: what is wrong with the arguments, in lines. -/
def UsageError.lines : UsageError → List String
  | usage => []
  | noSettingsFile => ["--config needs a file"]
  | unknownOption option => ["Unknown option: " ++ option]
  | secondInput => ["Only one input file is supported"]

/-- What the arguments ask for. Without an argument for it, every option is off. -/
structure Options where
  input : Option String := none
  settingsFile : Option String := none
  /-- Use the settings with one round of names, unless a file gives others. -/
  legacy : Bool := false
  json : Bool := false
  /-- Print the clauses of each statement as well. -/
  clauses : Bool := false
deriving Repr, DecidableEq, Inhabited

/-- `o.parse args`: the options after further arguments. The first argument that is wrong ends the
reading. -/
def Options.parse (o : Options) : List String → Except UsageError Options
  | [] => .ok o
  | "--json" :: args => { o with json := true }.parse args
  | "--legacy" :: args => { o with legacy := true }.parse args
  | "--clauses" :: args => { o with clauses := true }.parse args
  | "--config" :: file :: args => { o with settingsFile := some file }.parse args
  | ["--config"] => .error .noSettingsFile
  | "-h" :: _ => .error .usage
  | "--help" :: _ => .error .usage
  | arg :: args =>
    if arg.startsWith "--" then .error (.unknownOption arg)
    else if o.input.isSome then .error .secondInput
    else { o with input := some arg }.parse args

/-- `usageLines program`: the explanation of the arguments, in lines. -/
def usageLines (program : String) : List String :=
  [ "Usage: " ++ program ++ " <clif_file> [options]",
    "",
    "Options:",
    "  --json               Print one JSON object per axiom",
    "  --config <file>      Load the normalizer configuration from a JSON file",
    "  --legacy             26-variable budget, warn on unbound variables",
    "  --clauses            Also print the clauses of each axiom" ]

/-- What a run leaves behind: the exit `status`, the lines of output and those of errors. -/
structure Answer where
  status : UInt32 := 0
  output : List String := []
  errors : List String := []
deriving Repr, DecidableEq, Inhabited

/-- `textOfLines lines`: lines as text, each ended by a line feed. -/
def textOfLines (lines : List String) : String := String.join (lines.map (· ++ "\n"))

/-- `o.resultLines result`: what is printed for a statement after its normalization, its `Report`
under `--json`. Of a failure only the report is printed. -/
def resultLines (o : Options) (result : Except StageFailure Statement) : List String :=
  if o.json then [(Report.ofResult result).toJson.text]
  else
    match result with
    | .error _ => []
    | .ok s =>
      let clauses :=
        match s.formula.clauses with
        | .ok clauses => clauses
        | .error _ => []
      s.formula.text :: if o.clauses then clauses.map fun c => "  " ++ c.text else []

/-- `errorLines result`: what is printed to the error output for a statement. -/
def errorLines : Except StageFailure Statement → List String
  | .error f => ["Error: " ++ f.message]
  | .ok _ => []

/-- `o.answer settings statements`: the answer for the statements of a document. Each is normalized
on its own, and one that fails sets the status. -/
def answer (o : Options) (settings : Settings) (statements : List Statement) : Answer :=
  let results := statements.map fun s => (s.normalize settings).result
  let errors := results.flatMap errorLines
  { status := if errors.isEmpty then 0 else 1
    output := results.flatMap (resultLines o)
    errors }

/-- `o.settings readFile`: the settings that the options ask for. Those of a file come before
`--legacy`. -/
def settings {m : Type → Type} [Monad m] (readFile : String → m FileContents) (o : Options) :
    m (Except InputError Settings) :=
  match o.settingsFile with
  | some file => Settings.ofFile <$> readFile file
  | none => return .ok (if o.legacy then .legacy else {})

/-- The program, called by the name `program` with arguments. Settings are read before the input. -/
def run {m : Type → Type} [Monad m] (readFile : String → m FileContents) (program : String)
    (args : List String) : m Answer := do
  let misused (e : UsageError) : Answer :=
    { status := 2, errors := e.lines ++ usageLines program }
  match Options.parse {} args with
  | .error e => return misused e
  | .ok o =>
    match o.input with
    | none => return misused .usage
    | some input =>
      match ← settings readFile o with
      | .error e => return { status := 1, errors := ["Error: " ++ e.message] }
      | .ok s =>
        match (Clif.Document.ofFile (← readFile input)).result with
        | .error e =>
          return { status := 1, errors := ["Error reading " ++ input ++ ": " ++ e.message] }
        | .ok document => return answer o s document.statements

end ClausalForm.CommandLine
