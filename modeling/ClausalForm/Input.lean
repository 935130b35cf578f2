import ClausalForm.Clif.Document
import ClausalForm.Json.Settings

/-! # Input from files

What a file holds, read as a document or as settings, and what may be wrong with it.

* **`FileError`**, **`InputError`**: why a file could not be read, and why its text was refused.
* **`fileText`**: the text of a file.
* **`Clif.Document.ofFile`**, **`Settings.ofFile`**: what the text stands for. -/

namespace ClausalForm

/-- Why a file could not be read. -/
inductive FileError where
  /-- The system refused it, with its words and its number for the reason. -/
  | system (reason : String) (code : Nat)
  /-- The bytes are no text in UTF-8. -/
  | notText
deriving Repr, DecidableEq, Inhabited

namespace FileError

/-- There is no such file. -/
def notFound : FileError := system "No such file or directory" 2

/-- The path leads to a directory. -/
def isDirectory : FileError := system "Is a directory" 21

/-- A part of the path before its end is no directory. -/
def notDirectory : FileError := system "Not a directory" 20

/-- `e.message`: why a file could not be read, in words. -/
def message : FileError → String
  | system reason code => reason ++ " (os error " ++ toString code ++ ")"
  | notText => "stream did not contain valid UTF-8"

end FileError

/-- Why an input was refused. -/
inductive InputError where
  | syntaxError (e : Clif.SyntaxError)
  | file (e : FileError)
  /-- A text that stands for no settings. -/
  | settings
deriving Repr, Inhabited

/-- `e.message`: the message of an error, its kind first. -/
def InputError.message : InputError → String
  | syntaxError e => "Parse error: " ++ e.message
  | file e => "IO error: " ++ e.message
  | settings => "Invalid configuration: the text does not describe settings"

instance : ToString InputError := ⟨InputError.message⟩

/-- The contents of a file, or why it has none. -/
abbrev FileContents := Except FileError ByteArray

/-- `fileText contents`: the text of a file. Bytes that are no text are an error. -/
def fileText (contents : FileContents) : Except InputError String :=
  match contents with
  | .error e => .error (.file e)
  | .ok bytes =>
    match String.fromUTF8? bytes with
    | some text => .ok text
    | none => .error (.file .notText)

/-- `Document.ofFile contents`: the document that a file holds. -/
def Clif.Document.ofFile (contents : FileContents) : Recorded InputError Clif.Document := do
  let text ← .ofExcept (fileText contents)
  (Clif.Document.read text).mapError .syntaxError

/-- `Settings.ofFile contents`: the settings that a file holds. A text that `Settings.ofText?`
cannot read is an error. -/
def Settings.ofFile (contents : FileContents) : Except InputError Settings := do
  let text ← fileText contents
  match Settings.ofText? text with
  | some settings => return settings
  | none => .error .settings

end ClausalForm
