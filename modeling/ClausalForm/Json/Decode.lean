import ClausalForm.Json.Value

/-! # Values read from JSON

The shapes in which structured values are written:

* **`Json.record?`**: a record is an object with its fields in any order, among which unknown ones
  are ignored and known ones may not be repeated, or an array of all its fields in their order.
* **`Json.variant?`**: a variant is the name of the variant alone, or an object whose one member
  has that name.
* **`Json.choice?`**: a variant that holds nothing: its name alone, or with an empty value.
* **`Json.list?`**, **`Json.string?`**, **`Json.strings?`**, **`Json.bool?`**,
  **`Json.optional?`**: the parts.

A value may be nested `nestingLimit` deep. -/

namespace ClausalForm.Json

/-- `nestingLimit`: the greatest number of arrays and objects that may enclose each other. -/
def nestingLimit : Nat := 127

/-- `named? members`: the members of an object by name, if all names are texts. -/
def named? (members : List (Option String × Json)) : Option (List (String × Json)) :=
  members.mapM fun (name, value) => name.map (·, value)

/-- `unrepeated names members`: whether none of the given names stands twice in front of a
member. -/
def unrepeated (names : List String) (members : List (String × Json)) : Bool :=
  names.all fun name => (members.countP fun m => m.1 = name) ≤ 1

/-- The fields `names` of a record, each as far as it is there. In an array the last fields may be
missing down to the number `least`. -/
def record? (names : List String) (least : Nat) : Json → Option (List (Option Json))
  | .object members => do
    let members ← named? members
    guard (unrepeated names members)
    return names.map fun name => members.lookup name
  | .array items => do
    guard (least ≤ items.length ∧ items.length ≤ names.length)
    return names.mapIdx fun i _ => items[i]?
  | _ => none

/-- `value.fullRecord? names`: the fields of a record of which an array holds all. -/
def fullRecord? (names : List String) (value : Json) : Option (List (Option Json)) :=
  value.record? names names.length

/-- `value.variant?`: the name of a variant, with the value that it holds unless it is written by
its name alone. -/
def variant? : Json → Option (String × Option Json)
  | .string (some name) => some (name, none)
  | .object [(some name, value)] => some (name, some value)
  | _ => none

/-- Whether a value is `null`. -/
def isNull : Json → Bool
  | .null => true
  | _ => false

/-- Whether a value is `null` or an object without members. -/
def isEmpty : Json → Bool
  | .null => true
  | .object [] => true
  | _ => false

/-- One of several variants that hold nothing, or a value for which `nothing` holds. -/
def choice? {α : Type} (choices : List (String × α)) (nothing : Json → Bool) (value : Json) :
    Option α := do
  let (name, content) ← value.variant?
  guard (content.all nothing)
  choices.lookup name

/-- The text of a string. -/
def string? : Json → Option String
  | .string text => text
  | _ => none

/-- A truth value. -/
def bool? : Json → Option Bool
  | .bool value => some value
  | _ => none

/-- The items of an array. -/
def items? : Json → Option (List Json)
  | .array items => some items
  | _ => none

/-- `value.list? item?`: an array of which each item is read by `item?`. -/
def list? {α : Type} (item? : Json → Option α) (value : Json) : Option (List α) := do
  let items ← value.items?
  items.mapM item?

/-- `value.strings?`: an array of texts. -/
def strings? (value : Json) : Option (List String) := value.list? string?

/-- A text that may be missing or `null`. -/
def optional? : Option Json → Option (Option String)
  | none => some none
  | some value => if value.isNull then some none else value.string?.map some

/-- `value.isPlain`: whether a value can be held in memory as it is: all of its strings are texts,
its numbers are finite, and it is not nested too deeply. -/
def isPlain (value : Json) : Bool := plainParts value && value.depth ≤ nestingLimit
where
  /-- Whether all strings of a value are texts and all its numbers finite. -/
  plainParts : Json → Bool
    | .null => true
    | .bool _ => true
    | .number n => n.isFinite
    | .string text => text.isSome
    | .array items => (items.map plainParts).all id
    | .object members =>
      (members.attach.map fun ⟨(name, value), _⟩ => name.isSome && plainParts value).all id
  decreasing_by
    · have := List.sizeOf_lt_of_mem ‹_ ∈ items›; simp; omega
    · have := sizeOf_lt_of_member ‹_ ∈ members›; simp; omega

end ClausalForm.Json
