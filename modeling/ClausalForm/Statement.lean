import ClausalForm.Formula.Validate
import ClausalForm.FunctionFree
import ClausalForm.Prenex
import ClausalForm.Standardized

/-! # Statements and their normalization

A statement is a formula together with the text that it was read from. It passes through the stages
of the normalization one by one and keeps its text, so that a failure at any stage can name it.

* **`Stage`**, **`StageFailure`**: where and why the normalization of a statement stopped.
* **`Statement.eliminateFunctions`**, **`Statement.standardize`**, **`Statement.pushNegations`**,
  **`Statement.prenexForm`**: the stages.
* **`Statement.normalize`**: all of them, after a check that the formula is well-formed. -/

namespace ClausalForm

/-- The stages of the normalization, in the order in which they run. -/
inductive Stage where
  | validation
  | functionSubstitution
  | variableStandardization
  | negationPushing
  | prenexing
deriving Repr, DecidableEq, Inhabited

/-- `stage.name`: the name of a stage in messages. -/
def Stage.name : Stage → String
  | validation => "validation"
  | functionSubstitution => "function substitution"
  | variableStandardization => "variable standardization"
  | negationPushing => "negation pushing"
  | prenexing => "prenexing"

/-- The failure of a stage on a statement. -/
structure StageFailure where
  stage : Stage
  /-- What names the statement. -/
  label : String
  error : NormalizationError
deriving Repr, Inhabited

/-- `f.message`: the message of a failure, with its stage and what names the statement. -/
def StageFailure.message (f : StageFailure) : String :=
  f.stage.name ++ " failed for " ++ f.label ++ ": " ++ f.error.message

instance : ToString StageFailure := ⟨StageFailure.message⟩

/-- A formula with the text that it was read from, if it was. -/
structure Statement where
  formula : Formula
  source : Option String := none
deriving Repr, BEq, Inhabited

/-- `φ.recordedPrenexForm`: the prenex conjunctive normal form, with a message that shows it. -/
def Formula.recordedPrenexForm (φ : Formula) : Recorded NormalizationError Formula := do
  let ψ ← .ofExcept φ.prenexForm
  .record .trace ("Prenex normal form of " ++ φ.text ++ " is " ++ ψ.text)
  return ψ

namespace Statement

/-- `s.label`: what names a statement in messages, its text or else its formula. -/
def label (s : Statement) : String := s.source.getD s.formula.text

/-- `s.rewritten stage formula`: the statement after a stage that rewrites its formula. The text
that it was read from stays. -/
def rewritten (s : Statement) (stage : Stage) (formula : Recorded NormalizationError Formula) :
    Recorded StageFailure Statement := do
  let φ ← formula.mapError fun e => ⟨stage, s.label, e⟩
  .record .debug ("After " ++ stage.name ++ ": " ++ φ.text)
  return { s with formula := φ }

/-- `s.validate`: checks that the formula is well-formed. -/
def validate (s : Statement) : Except StageFailure Unit :=
  s.formula.validate.mapError fun e => ⟨.validation, s.label, e⟩

/-- `s.eliminateFunctions`: the statement without functions. The fresh variables avoid every
variable name of it. -/
def eliminateFunctions (s : Statement) : Recorded StageFailure Statement :=
  s.rewritten .functionSubstitution
    (s.formula.eliminateFunctions (.avoiding s.formula.variableNames)).1

/-- `s.standardize settings`: the statement with a name of its own for each bound variable. -/
def standardize (s : Statement) (settings : Settings) : Recorded StageFailure Statement :=
  s.rewritten .variableStandardization (s.formula.standardize settings)

/-- `s.pushNegations`: the statement in negation normal form. -/
def pushNegations (s : Statement) : Recorded StageFailure Statement :=
  s.rewritten .negationPushing (.ofExcept s.formula.pushNegations)

/-- `s.prenexForm`: the statement in prenex conjunctive normal form. -/
def prenexForm (s : Statement) : Recorded StageFailure Statement :=
  s.rewritten .prenexing s.formula.recordedPrenexForm

/-- **Normalization.** `s.normalize settings`: the statement in function-free prenex conjunctive
normal form, one stage after the other. The first stage that fails ends it. -/
def normalize (s : Statement) (settings : Settings) : Recorded StageFailure Statement := do
  .record .debug ("Normalizing " ++ s.label)
  .ofExcept s.validate
  let functionFree ← s.eliminateFunctions
  let standardized ← functionFree.standardize settings
  let pushed ← standardized.pushNegations
  let result ← pushed.prenexForm
  .record .info (s.label ++ " => " ++ result.formula.text)
  return result

end Statement

end ClausalForm
