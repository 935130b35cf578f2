import ClausalForm.Json.Value
import ClausalForm.Text.Characters

/-! # Tokens of a JSON text

* **`Json.Token`**: brackets, separators, and the values without parts.
* **`Json.unitsOfString?`**, **`Json.textOfUnits?`**: a string as a list of code units, and the
  text of the units. A pair of surrogates stands for one character.
* **`Json.readNumber?`**: a number by its digits.
* **`Json.tokens?`**: the tokens of a text, if it has no other parts. -/

namespace ClausalForm.Json

/-- A token. -/
inductive Token where
  | openBracket
  | closeBracket
  | openBrace
  | closeBrace
  | colon
  | comma
  /-- A value without parts that is no string. -/
  | scalar (value : Json)
  | string (text : Option String)
deriving Repr, Inhabited

/-! ## Strings -/

/-- `hexDigit? c`: the value of a hexadecimal digit. -/
def hexDigit? (c : Char) : Option Nat :=
  if '0' ≤ c ∧ c ≤ '9' then some (c.toNat - '0'.toNat)
  else if 'a' ≤ c ∧ c ≤ 'f' then some (c.toNat - 'a'.toNat + 10)
  else if 'A' ≤ c ∧ c ≤ 'F' then some (c.toNat - 'A'.toNat + 10)
  else none

/-- `hexValue? cs`: the value of a list of hexadecimal digits. -/
def hexValue? (cs : List Char) : Option Nat :=
  cs.foldlM (fun n c => (hexDigit? c).map fun d => 16 * n + d) 0

/-- `escaped? c`: the character that a letter after a backslash stands for. -/
def escaped? : Char → Option Char
  | '\x22' => some '\x22'
  | '\x5c' => some '\x5c'
  | '/' => some '/'
  | 'b' => some '\x08'
  | 'f' => some '\x0c'
  | 'n' => some '\n'
  | 'r' => some '\r'
  | 't' => some '\t'
  | _ => none

/-- `unitsOfString? cs`: the units of a string up to its closing quotation mark, and what follows
the mark. A unit is a code point, or a half of one where four hexadecimal digits give a
surrogate. -/
def unitsOfString? : List Char → Option (List Nat × List Char)
  | [] => none
  | '\x22' :: cs => some ([], cs)
  | '\x5c' :: 'u' :: a :: b :: c :: d :: cs => do
    let unit ← hexValue? [a, b, c, d]
    let (units, rest) ← unitsOfString? cs
    return (unit :: units, rest)
  | '\x5c' :: c :: cs => do
    let unit ← escaped? c
    let (units, rest) ← unitsOfString? cs
    return (unit.toNat :: units, rest)
  | c :: cs =>
    if c = '\x5c' ∨ c.toNat < 0x20 then none
    else (unitsOfString? cs).map fun (units, rest) => (c.toNat :: units, rest)

/-- `textOfUnits? units`: the characters of a list of units. A surrogate without its partner is no
text. -/
def textOfUnits? : List Nat → Option (List Char)
  | [] => some []
  | high :: low :: units =>
    if 0xD800 ≤ high ∧ high < 0xDC00 then
      if 0xDC00 ≤ low ∧ low < 0xE000 then
        (textOfUnits? units).map
          (Char.ofNat (0x10000 + (high - 0xD800) * 0x400 + (low - 0xDC00)) :: ·)
      else none
    else if 0xDC00 ≤ high ∧ high < 0xE000 then none
    else (textOfUnits? (low :: units)).map (Char.ofNat high :: ·)
  | [unit] => if 0xD800 ≤ unit ∧ unit < 0xE000 then none else some [Char.ofNat unit]

/-- `unitsOfString? cs` takes at least the closing mark. -/
theorem length_unitsOfString? {cs rest : List Char} {units : List Nat}
    (h : unitsOfString? cs = some (units, rest)) : rest.length < cs.length := by
  -- Every case takes a character at least before it goes on.
  fun_induction unitsOfString? cs generalizing units with
  | case1 => simp at h
  | case2 cs => simp_all
  | case3 a b c d cs ih =>
    simp only [bind, Option.bind_eq_some_iff, pure, Option.some.injEq, Prod.mk.injEq,
      Prod.exists] at h
    obtain ⟨_, -, _, _, found, -, rfl⟩ := h
    have := ih found
    simp
    omega
  | case4 c cs _ ih =>
    simp only [bind, Option.bind_eq_some_iff, pure, Option.some.injEq, Prod.mk.injEq,
      Prod.exists] at h
    obtain ⟨_, -, _, _, found, -, rfl⟩ := h
    have := ih found
    simp
    omega
  | case5 => simp at h
  | case6 c cs _ _ _ _ ih =>
    simp only [Option.map_eq_some_iff, Prod.mk.injEq, Prod.exists] at h
    obtain ⟨_, _, found, -, rfl⟩ := h
    have := ih found
    simp
    omega

/-! ## Numbers -/

/-- `digits cs`: the digits at the start of a text, and what follows them. -/
def digits (cs : List Char) : List Nat × List Char :=
  ((cs.takeWhile Char.isDigit).map fun c => c.toNat - '0'.toNat, cs.dropWhile Char.isDigit)

/-- `decimalValue ds`: the value of a list of digits. -/
def decimalValue (ds : List Nat) : Nat := ds.foldl (fun n d => 10 * n + d) 0

/-- `readInteger? cs`: the integer part of a number, which is a zero or digits of which the first is
no zero. -/
def readInteger? : List Char → Option (List Nat × List Char)
  | '0' :: cs => some ([0], cs)
  | cs =>
    match digits cs with
    | ([], _) => none
    | found => some found

/-- `readFraction? cs`: the digits after the point of a number, if it has one. -/
def readFraction? : List Char → Option (List Nat × List Char)
  | '.' :: cs =>
    match digits cs with
    | ([], _) => none
    | found => some found
  | cs => some ([], cs)

/-- `readExponentDigits? cs`: the digits of an exponent, as its value. -/
def readExponentDigits? (cs : List Char) : Option (Nat × List Char) :=
  match digits cs with
  | ([], _) => none
  | (ds, rest) => some (decimalValue ds, rest)

/-- `readExponent? cs`: the exponent of a number, if it has one. -/
def readExponent? : List Char → Option (Int × List Char)
  | c :: cs =>
    if c = 'e' ∨ c = 'E' then
      match cs with
      | '-' :: cs => (readExponentDigits? cs).map fun (n, rest) => (-(n : Int), rest)
      | '+' :: cs => (readExponentDigits? cs).map fun (n, rest) => ((n : Int), rest)
      | cs => (readExponentDigits? cs).map fun (n, rest) => ((n : Int), rest)
    else some (0, c :: cs)
  | [] => some (0, [])

/-- `readNumber? cs`: a number without its sign, and what follows it. -/
def readNumber? (cs : List Char) : Option (Number × List Char) := do
  let (integer, cs) ← readInteger? cs
  let (fraction, cs) ← readFraction? cs
  let (exponent, cs) ← readExponent? cs
  return (⟨integer, fraction, exponent⟩, cs)

/-- `digits cs` adds nothing to a text. -/
theorem length_digits (cs : List Char) : (digits cs).2.length ≤ cs.length :=
  (List.dropWhile_suffix Char.isDigit (l := cs)).length_le

/-- `digits cs = (ds, rest)`: a digit that is read is taken off the text. -/
theorem length_digits_lt {cs rest : List Char} {ds : List Nat} (h : digits cs = (ds, rest))
    (some : ds ≠ []) : rest.length < cs.length := by
  cases cs with
  | nil => simp [digits] at h; simp [← h.1] at some
  | cons c cs =>
    simp only [digits, Prod.mk.injEq] at h
    by_cases digit : c.isDigit
    · have := (List.dropWhile_suffix Char.isDigit (l := cs)).length_le
      rw [← h.2, List.dropWhile_cons_of_pos digit]
      simp
      omega
    · simp [digit] at h
      exact absurd h.1.symm (by simpa using some)

/-- `readInteger? cs` takes at least one digit. -/
theorem length_readInteger? {cs rest : List Char} {ds : List Nat}
    (h : readInteger? cs = some (ds, rest)) : rest.length < cs.length := by
  unfold readInteger? at h
  split at h
  · simp only [Option.some.injEq, Prod.mk.injEq] at h
    simp [← h.2]
  · split at h
    · simp at h
    · next found differ =>
      refine length_digits_lt (Option.some.inj h) ?_
      rintro rfl
      exact differ rest (Option.some.inj h)

/-- `readFraction? cs` adds nothing to a text. -/
theorem length_readFraction? {cs rest : List Char} {ds : List Nat}
    (h : readFraction? cs = some (ds, rest)) : rest.length ≤ cs.length := by
  unfold readFraction? at h
  split at h
  · next cs =>
    split at h
    · simp at h
    · have := length_digits cs
      rw [Option.some.inj h] at this
      simp at this ⊢
      omega
  · simp_all

/-- `readExponentDigits? cs` adds nothing to a text. -/
theorem length_readExponentDigits? {cs rest : List Char} {n : Nat}
    (h : readExponentDigits? cs = some (n, rest)) : rest.length ≤ cs.length := by
  unfold readExponentDigits? at h
  split at h
  · simp at h
  · next ds rest' found =>
    simp only [Option.some.injEq, Prod.mk.injEq] at h
    have := length_digits cs
    simp_all

/-- `readExponent? cs` adds nothing to a text. -/
theorem length_readExponent? {cs rest : List Char} {e : Int}
    (h : readExponent? cs = some (e, rest)) : rest.length ≤ cs.length := by
  unfold readExponent? at h
  split at h
  · split at h
    · split at h
      all_goals
        simp only [Option.map_eq_some_iff, Prod.mk.injEq, Prod.exists] at h
        obtain ⟨_, _, found, -, rfl⟩ := h
        have := length_readExponentDigits? found
        simp
        omega
    · simp_all
  · simp_all

/-- `readNumber? cs` takes at least one character. -/
theorem length_readNumber? {cs rest : List Char} {n : Number}
    (h : readNumber? cs = some (n, rest)) : rest.length < cs.length := by
  simp only [readNumber?, bind, Option.bind_eq_some_iff, pure, Option.some.injEq, Prod.mk.injEq,
    Prod.exists] at h
  obtain ⟨_, _, integer, _, _, fraction, _, _, exponent, -, rfl⟩ := h
  have := length_readInteger? integer
  have := length_readFraction? fraction
  have := length_readExponent? exponent
  omega

/-! ## Tokens -/

/-- `Token.read? cs`: the token at the start of a text that does not start with a blank, and what
follows it. -/
def Token.read? : List Char → Option (Token × List Char)
  | [] => none
  | '[' :: cs => some (.openBracket, cs)
  | ']' :: cs => some (.closeBracket, cs)
  | '\x7b' :: cs => some (.openBrace, cs)
  | '\x7d' :: cs => some (.closeBrace, cs)
  | ':' :: cs => some (.colon, cs)
  | ',' :: cs => some (.comma, cs)
  | 'n' :: 'u' :: 'l' :: 'l' :: cs => some (.scalar .null, cs)
  | 't' :: 'r' :: 'u' :: 'e' :: cs => some (.scalar (.bool true), cs)
  | 'f' :: 'a' :: 'l' :: 's' :: 'e' :: cs => some (.scalar (.bool false), cs)
  | '\x22' :: cs =>
    (unitsOfString? cs).map fun (units, rest) =>
      (.string ((textOfUnits? units).map String.ofList), rest)
  | '-' :: cs => (readNumber? cs).map fun (n, rest) => (.scalar (.number n), rest)
  | cs => (readNumber? cs).map fun (n, rest) => (.scalar (.number n), rest)

/-- `Token.read? cs` takes at least one character. -/
theorem Token.length_read? {cs rest : List Char} {t : Token} (h : read? cs = some (t, rest)) :
    rest.length < cs.length := by
  unfold read? at h
  split at h
  case h_1 => simp at h
  case h_11 =>
    simp only [Option.map_eq_some_iff, Prod.mk.injEq, Prod.exists] at h
    obtain ⟨_, _, found, -, rfl⟩ := h
    have := length_unitsOfString? found
    simp
    omega
  case h_12 =>
    simp only [Option.map_eq_some_iff, Prod.mk.injEq, Prod.exists] at h
    obtain ⟨_, _, found, -, rfl⟩ := h
    have := length_readNumber? found
    simp
    omega
  case h_13 =>
    simp only [Option.map_eq_some_iff, Prod.mk.injEq, Prod.exists] at h
    obtain ⟨_, _, found, -, rfl⟩ := h
    exact length_readNumber? found
  all_goals
    simp only [Option.some.injEq, Prod.mk.injEq] at h
    simp [← h.2]
    try omega

/-- `tokens? cs`: the tokens of a text, with blanks between them. -/
def tokens? (cs : List Char) : Option (List Token) :=
  if cs.dropWhile Text.isBlank = [] then some []
  else
    match _found : Token.read? (cs.dropWhile Text.isBlank) with
    | none => none
    | some (t, rest) => (tokens? rest).map (t :: ·)
termination_by cs.length
decreasing_by
  have := Token.length_read? _found
  have := (List.dropWhile_suffix Text.isBlank (l := cs)).length_le
  omega

end ClausalForm.Json
