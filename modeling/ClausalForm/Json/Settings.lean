import ClausalForm.Json.Decode
import ClausalForm.Json.Text
import ClausalForm.Settings

/-! # Settings as JSON

Settings are a record of which every field may be left out, for its default. -/

namespace ClausalForm

/-- `Naming.choices`: the names of the namings. -/
def Naming.choices : List (String × Naming) := [("unbounded", .unbounded), ("legacy", .alphabet)]

/-- `UnboundPolicy.choices`: the names of the policies. -/
def UnboundPolicy.choices : List (String × UnboundPolicy) :=
  [("strict", .strict), ("permissive", .permissive)]

/-- The name of a naming. -/
def Naming.name : Naming → String
  | unbounded => "unbounded"
  | alphabet => "legacy"

/-- The name of a policy. -/
def UnboundPolicy.name : UnboundPolicy → String
  | strict => "strict"
  | permissive => "permissive"

namespace Settings

/-- `s.toJson`: settings as JSON, all fields written. -/
def toJson (s : Settings) : Json :=
  .ofFields [("variable_naming", .ofString s.naming.name),
    ("unbound_variables", .ofString s.unbound.name)]

/-- `field? choices default value`: a field of settings, or its default if it is left out. -/
def field? {α : Type} (choices : List (String × α)) (default : α) : Option Json → Option α
  | none => some default
  | some value => value.choice? choices Json.isNull

/-- `Settings.ofJson? value`: the settings that a JSON value stands for. An array may end before the
first or the second field. -/
def ofJson? (value : Json) : Option Settings := do
  match ← value.record? ["variable_naming", "unbound_variables"] 0 with
  | [naming, unbound] =>
    return ⟨← field? Naming.choices .unbounded naming,
      ← field? UnboundPolicy.choices .strict unbound⟩
  | _ => none

/-- `Settings.ofText? text`: the settings that a text stands for. -/
def ofText? (text : String) : Option Settings := do
  let value ← Json.ofText? text
  ofJson? value

end Settings

end ClausalForm
