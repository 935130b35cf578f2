import ClausalForm.NormalizationError
import ClausalForm.Text.Position

/-! # Errors in the interchange text

What is wrong with a text, and where. -/

namespace ClausalForm.Clif

/-- What is wrong with a text. -/
inductive Fault where
  /-- A quotation mark has no partner. -/
  | unterminatedString
  /-- A parenthesis is never closed. -/
  | unbalancedParenthesis
  /-- Something that no node starts with. -/
  | unexpectedInput
  | quotedSentence
  | emptySentence
  /-- A sentence that does not start with a symbol. -/
  | noOperator
  | wrongOperandCount (operator : String) (expected found : Nat)
  | noOperands
  | noVariableList
  | noVariableName
  | emptyTerm
  | noFunctionName
  | importWithoutName
  /-- The operands do not make up a connective. -/
  | refused (e : NormalizationError)
deriving Repr, Inhabited

/-- `fault.message`: what is wrong, in words. -/
def Fault.message : Fault → String
  | unterminatedString => "invalid syntax"
  | unbalancedParenthesis => "unbalanced parenthesis"
  | unexpectedInput => "unexpected input"
  | quotedSentence => "a quoted string is not a sentence"
  | emptySentence => "empty sentence"
  | noOperator => "expected an operator or predicate name"
  | wrongOperandCount operator expected found =>
    "'" ++ operator ++ "' takes " ++ toString expected ++ " operand(s), found " ++ toString found
  | noOperands => "connective without operands"
  | noVariableList => "expected a non-empty variable list"
  | noVariableName => "expected a variable name"
  | emptyTerm => "empty term"
  | noFunctionName => "expected a function name"
  | importWithoutName => "cl-imports needs a name"
  | refused e => e.message

/-- A fault with its place, the number of bytes from there to the end of the text. -/
structure PlacedFault where
  fault : Fault
  start : Nat
deriving Repr, Inhabited

/-- A fault with its position in the text. -/
structure SyntaxError where
  fault : Fault
  position : Position
deriving Repr, Inhabited

/-- `f.inText text`: the fault with its position in the text that it was found in. -/
def PlacedFault.inText (f : PlacedFault) (text : String) : SyntaxError :=
  ⟨f.fault, .ofOffset text (text.utf8ByteSize - f.start)⟩

/-- `e.message`: the message of an error, with its line and column. -/
def SyntaxError.message (e : SyntaxError) : String := e.position.describe e.fault.message

instance : ToString SyntaxError := ⟨SyntaxError.message⟩

end ClausalForm.Clif
