import ClausalForm.Naming.Unused
import ClausalForm.Text.Alphabetic
import ClausalForm.Text.Lowercase

/-! # Names of function values

The variable that stands for a value of a function is named after the function: the first letter
of its name in lower case, and a number. One counter serves all functions.

* **`freshStem`**, **`numbered`**: the two parts of a name.
* **`FreshSupply`**: the counter and the names that are taken.
* **`FreshSupply.next`**: the next name, which is taken from then on. -/

namespace ClausalForm

/-- What the names for a function start with: the first character of its name in lower case if it
is a letter, and `v` otherwise. -/
def freshStem (function : String) : String :=
  match function.toList with
  | c :: _ => if Text.isAlphabetic c then String.ofList (Text.lowercase c) else "v"
  | [] => "v"

/-- `numbered stem i`: a stem with a number. -/
def numbered (stem : String) (i : Nat) : String := stem ++ i.repr

/-- A supply of variable names that are not `taken`. One counter serves all stems. -/
structure FreshSupply where
  /-- Names that are never handed out. -/
  taken : List String := []
  /-- The last number used, those passed over included. -/
  counter : Nat := 0
deriving Repr, Inhabited

namespace FreshSupply

/-- A supply that never hands out one of `names`. -/
def avoiding (names : List String) : FreshSupply := { taken := names }

/-- The supply that also avoids `names`. -/
def reserve (supply : FreshSupply) (names : List String) : FreshSupply :=
  { supply with taken := names ++ supply.taken }

/-- `next function`: the next name for a value of `function`, its stem with the first number above
the counter that makes a name not taken. The name is taken from then on. -/
def next (function : String) : StateM FreshSupply String := fun supply =>
  let candidate := numbered (freshStem function)
  let i := firstUnused candidate supply.taken (supply.counter + 1)
  (candidate i, { taken := candidate i :: supply.taken, counter := i })

end FreshSupply

end ClausalForm
