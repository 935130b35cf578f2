import ClausalForm.Log
import ClausalForm.Naming.Unused
import ClausalForm.Settings

/-! # Names of bound variables

The names are those of the reversed alphabet, round after round: `z`, ..., `a`, `z1`, ..., `a1`,
`z2`, and so on.

* **`alphabetSize`**, **`roundName`**: the sequence of names.
* **`VariableSupply`**: the place reached in the sequence and the names left out.
* **`VariableSupply.next`**: the next name that is not left out. Under `Naming.alphabet` only the
  first round may be used, and a name left out is lost. -/

namespace ClausalForm

/-- `alphabetSize`: the number of names in one round, from `z` down to `a`. -/
def alphabetSize : Nat := 26

/-- `roundName i`: the name at the place `i` of the sequence `z`, …, `a`, `z1`, …, `a1`, `z2`, …. -/
def roundName (i : Nat) : String :=
  let letter := String.singleton (Char.ofNat ('z'.toNat - i % alphabetSize))
  if i < alphabetSize then letter else letter ++ (i / alphabetSize).repr

/-- A supply of names for bound variables. It goes through the sequence of `roundName` once. -/
structure VariableSupply where
  naming : Naming
  /-- Names that are never handed out. -/
  taken : List String
  /-- The first place of the sequence not yet reached. -/
  position : Nat := 0
  /-- The number of names handed out. -/
  issued : Nat := 0
deriving Repr, Inhabited

namespace VariableSupply

/-- A supply at the start of the sequence that leaves out `names`. -/
def avoiding (naming : Naming) (names : List String) : VariableSupply := { naming, taken := names }

/-- `supply.next`: the next name and the supply after it. Under `.alphabet` there is none behind the
first round, and names passed over count against it. -/
def next (supply : VariableSupply) : Except NormalizationError (String × VariableSupply) :=
  let place := firstUnused roundName supply.taken supply.position
  if supply.naming = .alphabet ∧ alphabetSize ≤ place then
    .error (.tooManyVariables alphabetSize)
  else
    .ok (roundName place, { supply with position := place + 1, issued := supply.issued + 1 })

end VariableSupply

end ClausalForm
