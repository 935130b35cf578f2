import ClausalForm.Text.Characters
import ClausalForm.Text.Position

/-! # Tokens of the interchange text

A text is a sequence of parentheses, symbols and quoted strings. Blanks and comments may stand
between them.

* **`skip`**: what follows the blanks and comments at the start of a text.
* **`Token.read?`**: the token at the start of a text.
* **`tokens`**: the tokens of a text, each with its place. A token that nothing can be read after,
  such as an unterminated string, is the last one.

A place is the number of bytes from there to the end of the text. -/

namespace ClausalForm.Clif

/-! ## Blanks and comments -/

/-- `afterLineComment? cs`: what follows a line comment: the line feed, or carriage return and line
feed, that ends it, or nothing. A carriage return alone does not end a line, and what it stands in
is no comment. -/
def afterLineComment? : List Char → Option (List Char)
  | [] => some []
  | '\n' :: cs => some ('\n' :: cs)
  | '\r' :: '\n' :: cs => some ('\r' :: '\n' :: cs)
  | '\r' :: _ => none
  | _ :: cs => afterLineComment? cs

/-- `afterBlockComment? cs`: what follows the end of a block comment. Without an end it is none. -/
def afterBlockComment? : List Char → Option (List Char)
  | [] => none
  | '*' :: '/' :: cs => some cs
  | _ :: cs => afterBlockComment? cs

/-- `afterLineComment? cs` leaves no more than it was given. -/
theorem length_afterLineComment? {cs ds : List Char} (h : afterLineComment? cs = some ds) :
    ds.length ≤ cs.length := by
  fun_induction afterLineComment? cs with
  | case1 => simp_all
  | case2 => simp_all [← Option.some.inj h]
  | case3 => simp_all [← Option.some.inj h]
  | case4 => simp at h
  | case5 c cs _ _ _ ih => have := ih h; simp; omega

/-- `afterBlockComment? cs` leaves no more than it was given. -/
theorem length_afterBlockComment? {cs ds : List Char} (h : afterBlockComment? cs = some ds) :
    ds.length ≤ cs.length := by
  fun_induction afterBlockComment? cs with
  | case1 => simp at h
  | case2 cs => simp [← Option.some.inj h]; omega
  | case3 c cs _ ih => have := ih h; simp; omega

/-- `skip cs`: what follows the blanks and comments at the start of a text. An opener of a comment
that is none is left to be read as a symbol. -/
def skip : List Char → List Char
  | [] => []
  | '/' :: '/' :: cs =>
    match _comment : afterLineComment? cs with
    | some ds => skip ds
    | none => '/' :: '/' :: cs
  | '/' :: '*' :: cs =>
    match _comment : afterBlockComment? cs with
    | some ds => skip ds
    | none => '/' :: '*' :: cs
  | c :: cs => if Text.isBlank c then skip cs else c :: cs
termination_by cs => cs.length
decreasing_by
  · have := length_afterLineComment? _comment; simp; omega
  · have := length_afterBlockComment? _comment; simp; omega
  · simp

/-- `(skip cs).length ≤ cs.length`: skipping adds nothing to a text. -/
theorem length_skip (cs : List Char) : (skip cs).length ≤ cs.length := by
  fun_induction skip cs with
  | case1 => simp
  | case2 cs ds h ih => have := length_afterLineComment? h; simp; omega
  | case3 => simp
  | case4 cs ds h ih => have := length_afterBlockComment? h; simp; omega
  | case5 => simp
  | case6 c cs _ _ _ ih => simp; omega
  | case7 => simp

/-! ## Tokens -/

/-- A token. What cannot be read is a token as well, so that its place is known. -/
inductive Token where
  | opening
  | closing
  | symbol (name : String)
  /-- A quoted string, by the text that it stands for. -/
  | quoted (text : String)
  /-- A quotation mark without its partner. -/
  | unterminated
  /-- White space that may not stand between tokens. -/
  | stray
deriving Repr, DecidableEq, Inhabited

/-- `isSymbolChar c`: whether a character may stand in a symbol: any but white space, parentheses
and quotation marks. -/
def isSymbolChar (c : Char) : Bool :=
  !Text.isSpace c && c != '(' && c != ')' && c != '\x27' && c != '\x22'

/-- `isQuotationMark c`: whether a character encloses quoted strings. -/
def isQuotationMark (c : Char) : Bool := c = '\x27' || c = '\x22'

/-- `quotedText? mark cs`: the text up to a closing quotation mark and what follows the mark. A
character after a backslash stands for itself. -/
def quotedText? (mark : Char) : List Char → Option (List Char × List Char)
  | [] => none
  | '\x5c' :: c :: cs => (quotedText? mark cs).map fun (text, rest) => (c :: text, rest)
  | c :: cs =>
    if c = '\x5c' then none
    else if c = mark then some ([], cs)
    else (quotedText? mark cs).map fun (text, rest) => (c :: text, rest)

/-- `quotedText? mark cs` takes at least the closing mark. -/
theorem length_quotedText? {mark : Char} {cs text rest : List Char}
    (h : quotedText? mark cs = some (text, rest)) : rest.length < cs.length := by
  fun_induction quotedText? mark cs generalizing text with
  | case1 => simp at h
  | case2 c cs ih =>
    simp only [Option.map_eq_some_iff, Prod.mk.injEq, Prod.exists] at h
    obtain ⟨text', rest', found, rfl, rfl⟩ := h
    have := ih found
    simp
    omega
  | case3 => simp at h
  | case4 => simp_all
  | case5 c cs _ _ _ ih =>
    simp only [Option.map_eq_some_iff, Prod.mk.injEq, Prod.exists] at h
    obtain ⟨text', rest', found, rfl, rfl⟩ := h
    have := ih found
    simp
    omega

/-- `Token.read? cs`: the token at the start of a text, and what follows it. Nothing follows what
cannot be read. -/
def Token.read? : List Char → Option (Token × List Char)
  | [] => none
  | c :: cs =>
    if c = '(' then some (.opening, cs)
    else if c = ')' then some (.closing, cs)
    else if isQuotationMark c then
      match quotedText? c cs with
      | some (text, rest) => some (.quoted (.ofList text), rest)
      | none => some (.unterminated, [])
    else if isSymbolChar c then
      some (.symbol (.ofList (c :: cs.takeWhile isSymbolChar)), cs.dropWhile isSymbolChar)
    else some (.stray, [])

/-- `Token.read? cs` takes at least one character. -/
theorem Token.length_read? {cs rest : List Char} {t : Token} (h : read? cs = some (t, rest)) :
    rest.length < cs.length := by
  unfold read? at h
  split at h
  · simp at h
  · next c cs =>
    have := (List.dropWhile_suffix isSymbolChar (l := cs)).length_le
    repeat' split at h
    all_goals simp only [Option.some.injEq, Prod.mk.injEq] at h
    all_goals obtain ⟨-, rfl⟩ := h
    case h_1 text rest found => have := length_quotedText? found; simp; omega
    all_goals simp
    omega

/-- A token with its place: the number of bytes from its `start` and from its `stop` to the end of
the text. -/
structure PlacedToken where
  token : Token
  start : Nat
  stop : Nat
deriving Repr, DecidableEq, Inhabited

/-- `tokens cs`: the tokens of a text that starts with one, each with its place. Between two of them
`skip` is applied. -/
def tokens (cs : List Char) : List PlacedToken :=
  match _found : Token.read? cs with
  | none => []
  | some (t, rest) => ⟨t, Text.utf8Size cs, Text.utf8Size rest⟩ :: tokens (skip rest)
termination_by cs.length
decreasing_by
  have := Token.length_read? _found
  have := length_skip rest
  omega

end ClausalForm.Clif
