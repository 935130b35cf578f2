/-! # JSON values

* **`Json`**: the values of JSON. Objects keep their members in order, with repetitions.
* **`Json.Number`**: a number as it is written.
* **`Json.depth`**: how deeply arrays and objects are nested.
* **`Json.Number.isFinite`**: whether a number is read as a finite double. -/

namespace ClausalForm

namespace Json

/-- A number as it is written, by its digits. The sign matters to no rule and is left out. -/
structure Number where
  integer : List Nat
  fraction : List Nat := []
  exponent : Int := 0
deriving Repr, DecidableEq, Inhabited

end Json

/-- A JSON value. A string, or the name of a member, is `none` if it has an escaped surrogate
without a partner, and is no text then. -/
inductive Json where
  | null
  | bool (value : Bool)
  | number (value : Json.Number)
  | string (text : Option String)
  | array (items : List Json)
  | object (members : List (Option String × Json))
deriving Repr, BEq, Inhabited

namespace Json

/-- The value of a text. -/
def ofString (s : String) : Json := .string (some s)

/-- An array of texts. -/
def ofStrings (names : List String) : Json := .array (names.map ofString)

/-- `ofFields fields`: the object with the given members. -/
def ofFields (fields : List (String × Json)) : Json :=
  .object (fields.map fun (name, value) => (some name, value))

/-- The value of a member is smaller than the list of members. -/
theorem sizeOf_lt_of_member {name : Option String} {value : Json}
    {members : List (Option String × Json)} (h : (name, value) ∈ members) :
    sizeOf value < sizeOf members := by
  have := List.sizeOf_lt_of_mem h
  simp at this
  omega

/-- `value.depth`: the number of arrays and objects that enclose each other at the deepest place. -/
def depth : Json → Nat
  | .array items => 1 + (items.map depth).foldl max 0
  | .object members => 1 + (members.attach.map fun ⟨(_, value), _⟩ => value.depth).foldl max 0
  | _ => 0
decreasing_by
  · have := List.sizeOf_lt_of_mem ‹_ ∈ items›; simp; omega
  · have := sizeOf_lt_of_member ‹_ ∈ members›; simp; omega

/-! ## Numbers -/

namespace Number

/-- `maxSignificand`: the greatest significand that is kept. -/
def maxSignificand : Nat := Nat.pow 2 64 - 1

/-- `appendDigits significand ds`: appends digits to a significand while it can be kept, and counts
those that were not. -/
def appendDigits (significand : Nat) : List Nat → Nat × Nat
  | [] => (significand, 0)
  | d :: ds =>
    if significand * 10 + d ≤ maxSignificand then appendDigits (significand * 10 + d) ds
    else (significand, ds.length + 1)

/-- `n.decompose`: the significand of a number and the power of ten that it is multiplied by. Digits
that do not fit into the significand are left out; those of the integer part still count as
places. -/
def decompose (n : Number) : Nat × Int :=
  let (whole, dropped) := appendDigits 0 n.integer
  let (significand, unread) := appendDigits whole n.fraction
  (significand, n.exponent + dropped - (n.fraction.length - unread : Nat))

/-- `roundToDouble n`: a natural number rounded to 53 significant bits, a tie to the even
neighbour. -/
def roundToDouble (n : Nat) : Nat :=
  if n < Nat.pow 2 53 then n
  else
    let unit := Nat.pow 2 (n.log2 - 52)
    let quotient := n / unit
    let remainder := n % unit
    if unit < 2 * remainder ∨ unit = 2 * remainder ∧ quotient % 2 = 1 then (quotient + 1) * unit
    else quotient * unit

/-- The least natural number that is rounded to an infinite double. -/
def overflowBound : Nat := Nat.pow 2 1024 - Nat.pow 2 970

/-- `n.isFinite`: whether a number is read as a finite double, as the product of its significand and
the power of ten, each rounded before. -/
def isFinite (n : Number) : Bool :=
  let (significand, exponent) := n.decompose
  significand = 0 || exponent < 0 ||
    (exponent ≤ 308 &&
      roundToDouble significand * roundToDouble (Nat.pow 10 exponent.toNat) < overflowBound)

end Number

end Json

end ClausalForm
