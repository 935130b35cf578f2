import ClausalForm.Json.Token

/-! # JSON texts

* **`Json.ofText?`**: the value that a text stands for. It must be one value with nothing but
  blanks around it.
* **`Json.text`**: a value as text without blanks. In strings only quotation marks, backslashes and
  control characters are escaped. -/

namespace ClausalForm.Json

/-! ## Reading -/

/-- An array or object of which the end is not reached, with the parts read so far, the last one
first. -/
inductive OpenValue where
  | array (items : List Json)
  /-- The value of the member `name` is being read. -/
  | object (members : List (Option String × Json)) (name : Option String)

mutual

/-- `readValue? outer ts`: reads a value inside of the given arrays and objects, innermost first.
The lists that are open are kept beside it, so that the depth of a text does not matter. -/
def readValue? (outer : List OpenValue) : List Token → Option Json
  | .scalar value :: ts => readEnd? outer value ts
  | .string text :: ts => readEnd? outer (.string text) ts
  | .openBracket :: .closeBracket :: ts => readEnd? outer (.array []) ts
  | .openBracket :: ts => readValue? (.array [] :: outer) ts
  | .openBrace :: .closeBrace :: ts => readEnd? outer (.object []) ts
  | .openBrace :: .string name :: .colon :: ts => readValue? (.object [] name :: outer) ts
  | _ => none

/-- `readEnd? outer value ts`: goes on after a value that is complete. -/
def readEnd? (outer : List OpenValue) (value : Json) : List Token → Option Json
  | [] => if outer.isEmpty then some value else none
  | t :: ts =>
    match outer, t with
    | .array items :: outer, .comma => readValue? (.array (value :: items) :: outer) ts
    | .array items :: outer, .closeBracket =>
      readEnd? outer (.array (value :: items).reverse) ts
    | .object members name :: outer, .comma =>
      match ts with
      | .string next :: .colon :: ts =>
        readValue? (.object ((name, value) :: members) next :: outer) ts
      | _ => none
    | .object members name :: outer, .closeBrace =>
      readEnd? outer (.object ((name, value) :: members).reverse) ts
    | _, _ => none

end

/-- `Json.ofText? text`: the value that a text stands for. -/
def ofText? (text : String) : Option Json := do
  let ts ← tokens? text.toList
  readValue? [] ts

/-! ## Writing -/

/-- `writtenChar c`: the characters written for one character of a string. -/
def writtenChar (c : Char) : List Char :=
  if c = '\x22' ∨ c = '\x5c' then ['\x5c', c]
  else if c = '\x08' then ['\x5c', 'b']
  else if c = '\t' then ['\x5c', 't']
  else if c = '\n' then ['\x5c', 'n']
  else if c = '\x0c' then ['\x5c', 'f']
  else if c = '\r' then ['\x5c', 'r']
  else if c.toNat < 0x20 then
    ['\x5c', 'u', '0', '0', Nat.digitChar (c.toNat / 16), Nat.digitChar (c.toNat % 16)]
  else [c]

/-- `writtenString s`: a string in quotation marks, with `writtenChar` on each of its characters. -/
def writtenString (s : String) : String :=
  "\x22" ++ String.ofList (s.toList.flatMap writtenChar) ++ "\x22"

/-- `n.text`: a number by its digits. -/
def Number.text (n : Number) : String :=
  let written (ds : List Nat) := String.ofList (ds.map Nat.digitChar)
  written n.integer ++ (if n.fraction.isEmpty then "" else "." ++ written n.fraction) ++
    (if n.exponent = 0 then "" else "e" ++ toString n.exponent)

/-- `value.text`: a value as text, without blanks. What is no text is written as the replacement
character. -/
def text : Json → String
  | .null => "null"
  | .bool value => if value then "true" else "false"
  | .number n => n.text
  | .string s => writtenString (s.getD "\ufffd")
  | .array items => "[" ++ ",".intercalate (items.map text) ++ "]"
  | .object members =>
    "\x7b" ++
      ",".intercalate (members.attach.map fun ⟨(name, value), _⟩ =>
        writtenString (name.getD "\ufffd") ++ ":" ++ value.text) ++
      "\x7d"
decreasing_by
  · have := List.sizeOf_lt_of_mem ‹_ ∈ items›; simp; omega
  · have := sizeOf_lt_of_member ‹_ ∈ members›; simp; omega

end ClausalForm.Json
