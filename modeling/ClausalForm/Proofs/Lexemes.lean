import ClausalForm.Clif.Token
import Mathlib.Data.List.Infix
import Mathlib.Data.List.TakeWhile

/-! # Comments and tokens as they are written

What a reader takes from the front of a text, said without the reader: a line comment is a line, a
block comment goes up to the first mark that ends one, and in a quoted string some characters stand
behind a backslash. Where such text stands in front of another one, the reader takes just that.

* **`Clif.afterLineComment?_eq_some_iff`**, **`Clif.afterBlockComment?_eq_some_iff`**: comments.
* **`Clif.quotedText?_eq_some_iff`**: quoted strings, as lists of `Clif.QuotedChar`.
* **`Clif.Token.read?_of_spells`**, **`Clif.Token.exists_spells_of_read?`**: a token is read exactly
  where it is written, as `Clif.Token.Spells` says, and ends. -/

namespace ClausalForm.Clif

variable {mark : Char} {cs ds gap line body name rest : List Char} {t : Token}

/-! ## Line comments -/

/-- `IsLine cs`: none of the characters ends a line. -/
def IsLine (cs : List Char) : Prop := ∀ c ∈ cs, c ≠ '\n' ∧ c ≠ '\r'

/-- `EndsLine cs`: a line ends in front of `cs`, at a line feed, at a carriage return with a line
feed, or with the text. -/
inductive EndsLine : List Char → Prop
  | nil : EndsLine []
  | lineFeed {cs : List Char} : EndsLine ('\n' :: cs)
  | returned {cs : List Char} : EndsLine ('\r' :: '\n' :: cs)

/-- `EndsLine (c :: cs)` exactly at a line feed, or at a carriage return that one follows. -/
theorem endsLine_cons_iff {c : Char} :
    EndsLine (c :: cs) ↔ c = '\n' ∨ c = '\r' ∧ cs.head? = some '\n' := by
  constructor
  · rintro (_ | _ | _)
    · exact .inl rfl
    · exact .inr ⟨rfl, rfl⟩
  · rintro (rfl | ⟨rfl, next⟩)
    · exact .lineFeed
    · obtain ⟨cs, rfl⟩ := List.head?_eq_some_iff.1 next
      exact .returned

/-- `afterLineComment? (c :: cs) = afterLineComment? cs` unless `c` ends a line. -/
theorem afterLineComment?_cons {c : Char} (lineFeed : c ≠ '\n') (carriageReturn : c ≠ '\r') :
    afterLineComment? (c :: cs) = afterLineComment? cs := by
  rw [afterLineComment?]
  · exact lineFeed
  · exact fun _ same _ => carriageReturn same
  · exact carriageReturn

/-- `afterLineComment? (line ++ cs) = afterLineComment? cs`: the rest of the line belongs to the
comment. -/
theorem afterLineComment?_line (isLine : IsLine line) :
    afterLineComment? (line ++ cs) = afterLineComment? cs := by
  induction line with
  | nil => rfl
  | cons c line ih =>
    obtain ⟨⟨lineFeed, carriageReturn⟩, rest⟩ := List.forall_mem_cons.1 isLine
    exact (afterLineComment?_cons lineFeed carriageReturn).trans (ih rest)

/-- `afterLineComment? cs = some ds` exactly if `cs` is a line and then `ds`, and the line ends
there. -/
theorem afterLineComment?_eq_some_iff :
    afterLineComment? cs = some ds ↔ ∃ line, IsLine line ∧ cs = line ++ ds ∧ EndsLine ds := by
  constructor
  · intro h
    fun_induction afterLineComment? cs with
    | case1 => exact Option.some.inj h ▸ ⟨[], List.forall_mem_nil _, rfl, .nil⟩
    | case2 => exact Option.some.inj h ▸ ⟨[], List.forall_mem_nil _, rfl, .lineFeed⟩
    | case3 => exact Option.some.inj h ▸ ⟨[], List.forall_mem_nil _, rfl, .returned⟩
    | case4 => cases h
    | case5 c cs lineFeed _ carriageReturn ih =>
      obtain ⟨line, isLine, rfl, ends⟩ := ih h
      exact ⟨c :: line, List.forall_mem_cons.2 ⟨⟨lineFeed, carriageReturn⟩, isLine⟩, rfl, ends⟩
  · rintro ⟨line, isLine, rfl, ends⟩
    rw [afterLineComment?_line isLine]
    cases ends <;> rfl

/-! ## Block comments -/

/-- `afterBlockComment? cs = none` exactly if there is no `*/` in `cs`. -/
theorem afterBlockComment?_eq_none_iff : afterBlockComment? cs = none ↔ ¬ ['*', '/'] <:+: cs := by
  fun_induction afterBlockComment? cs with
  | case1 => simp
  | case2 cs => simp [List.infix_cons_iff]
  | case3 c cs other ih =>
    rw [ih, List.infix_cons_iff, not_or]
    refine (and_iff_right ?_).symm
    rintro ⟨es, same⟩
    obtain ⟨rfl, rfl⟩ := List.cons.inj same
    exact other es rfl rfl

/-- `afterBlockComment? cs = some ds` exactly if `ds` is what follows the first `*/`. -/
theorem afterBlockComment?_eq_some_iff : afterBlockComment? cs = some ds ↔
    ∃ body, ¬ ['*', '/'] <:+: body ∧ cs = body ++ '*' :: '/' :: ds := by
  constructor
  · intro h
    fun_induction afterBlockComment? cs with
    | case1 => cases h
    | case2 cs => exact Option.some.inj h ▸ ⟨[], by simp, rfl⟩
    | case3 c cs other ih =>
      obtain ⟨body, closed, rfl⟩ := ih h
      refine ⟨c :: body, ?_, rfl⟩
      rw [List.infix_cons_iff, not_or]
      refine ⟨?_, closed⟩
      rintro ⟨es, same⟩
      obtain ⟨rfl, rfl⟩ := List.cons.inj same
      exact other _ rfl rfl
  · rintro ⟨body, closed, rfl⟩
    induction body with
    | nil => rfl
    | cons c body ih =>
      rw [List.infix_cons_iff, not_or] at closed
      rw [List.cons_append, afterBlockComment?]
      · exact ih closed.2
      · -- The mark would start with the last character before the body's end, or in the body.
        rintro es rfl same
        cases body with
        | nil => cases same
        | cons d body =>
          obtain ⟨rfl, -⟩ := List.cons.inj same
          exact closed.1 ⟨body, rfl⟩

/-! ## Quoted strings -/

/-- A character of a quoted string, which may stand behind a backslash. -/
structure QuotedChar where
  char : Char
  escaped : Bool
deriving Repr, DecidableEq

/-- `c.written`: the character, with its backslash if there is one. -/
def QuotedChar.written (c : QuotedChar) : List Char :=
  if c.escaped then ['\x5c', c.char] else [c.char]

/-- `c.IsProper mark`: the character `mark` that encloses the string, and a backslash, stand behind
a backslash. -/
def QuotedChar.IsProper (mark : Char) (c : QuotedChar) : Prop :=
  c.escaped = false → c.char ≠ mark ∧ c.char ≠ '\x5c'

/-- `isQuotationMark mark`: it is the single one or the double one. -/
theorem isQuotationMark_iff : isQuotationMark mark = true ↔ mark = '\x27' ∨ mark = '\x22' := by
  simp [isQuotationMark]

/-- `quotation mark chars`: the written characters between two `mark`s. -/
def quotation (mark : Char) (chars : List QuotedChar) : List Char :=
  mark :: (chars.flatMap (·.written) ++ [mark])

/-- `quotedText?` reads a written character as the character itself. -/
theorem quotedText?_written {c : QuotedChar} (proper : c.IsProper mark) :
    quotedText? mark (c.written ++ cs) =
      (quotedText? mark cs).map fun (text, rest) => (c.char :: text, rest) := by
  obtain ⟨c, escaped⟩ := c
  cases escaped with
  | true => exact quotedText?.eq_2 mark c cs
  | false =>
    obtain ⟨other, plain⟩ := proper rfl
    show quotedText? mark (c :: cs) = _
    rw [quotedText?, if_neg plain, if_neg other]
    exact fun _ _ same _ => plain same

/-- `quotedText? mark cs = some (text, rest)` exactly if `text` is written in front of a `mark`, and
`rest` follows. -/
theorem quotedText?_eq_some_iff {text : List Char} (isMark : isQuotationMark mark = true) :
    quotedText? mark cs = some (text, rest) ↔ ∃ chars : List QuotedChar,
      (∀ c ∈ chars, c.IsProper mark) ∧ text = chars.map (·.char) ∧
        cs = chars.flatMap (·.written) ++ mark :: rest := by
  constructor
  · intro h
    fun_induction quotedText? mark cs generalizing text with
    | case1 => cases h
    | case2 c cs ih =>
      -- A backslash is left out, and the character behind it taken.
      obtain ⟨⟨inner, after⟩, found, same⟩ := Option.map_eq_some_iff.1 h
      obtain ⟨rfl, rfl⟩ := Prod.mk.inj same
      obtain ⟨chars, proper, rfl, rfl⟩ := ih found
      have escapes : QuotedChar.IsProper mark ⟨c, true⟩ := fun escaped => by cases escaped
      exact ⟨⟨c, true⟩ :: chars, List.forall_mem_cons.2 ⟨escapes, proper⟩, rfl, rfl⟩
    | case3 => cases h
    | case4 cs _ plain =>
      obtain ⟨rfl, rfl⟩ := Prod.mk.inj (Option.some.inj h)
      exact ⟨[], List.forall_mem_nil _, rfl, rfl⟩
    | case5 c cs _ plain other ih =>
      obtain ⟨⟨inner, after⟩, found, same⟩ := Option.map_eq_some_iff.1 h
      obtain ⟨rfl, rfl⟩ := Prod.mk.inj same
      obtain ⟨chars, proper, rfl, rfl⟩ := ih found
      have stands : QuotedChar.IsProper mark ⟨c, false⟩ := fun _ => ⟨other, plain⟩
      exact ⟨⟨c, false⟩ :: chars, List.forall_mem_cons.2 ⟨stands, proper⟩, rfl, rfl⟩
  · rintro ⟨chars, proper, rfl, rfl⟩
    induction chars with
    | nil =>
      -- The closing mark does not count as a backslash, as it is none.
      have plain : mark ≠ '\x5c' := by
        rintro rfl
        cases isMark
      show quotedText? mark (mark :: rest) = _
      rw [quotedText?, if_neg plain, if_pos rfl]
      · rfl
      · exact fun _ _ same _ => plain same
    | cons c chars ih =>
      obtain ⟨first, others⟩ := List.forall_mem_cons.1 proper
      rw [List.flatMap_cons, List.append_assoc, quotedText?_written first, ih others]
      rfl

/-! ## Tokens -/

/-- `t.IsWhole`: a node may take the token, since what follows it can be read. -/
def Token.IsWhole (t : Token) : Prop := t ≠ .unterminated ∧ t ≠ .stray

/-- `t.Spells name`: `name` is a way to write the token `t`. -/
inductive Token.Spells : Token → List Char → Prop
  | opening : Spells .opening ['(']
  | closing : Spells .closing [')']
  | symbol {name : List Char} (some : name ≠ []) (chars : ∀ c ∈ name, isSymbolChar c = true) :
      Spells (.symbol (.ofList name)) name
  | quoted {mark : Char} {chars : List QuotedChar} (isMark : isQuotationMark mark = true)
      (proper : ∀ c ∈ chars, c.IsProper mark) :
      Spells (.quoted (.ofList (chars.map (·.char)))) (quotation mark chars)

/-- The token ends where the text `rest` follows: after a symbol there is no further character that
may stand in one. -/
def Token.EndsBefore : Token → List Char → Prop
  | .symbol _, rest => ∀ c ∈ rest.head?, isSymbolChar c = false
  | _, _ => True

/-- `takeWhile p` and `dropWhile p` cut a list where the first element without `p` stands. -/
theorem takeWhile_dropWhile_iff {p : Char → Bool} :
    cs.takeWhile p = name ∧ cs.dropWhile p = rest ↔
      cs = name ++ rest ∧ (∀ c ∈ name, p c = true) ∧ ∀ c ∈ rest.head?, p c = false := by
  constructor
  · rintro ⟨rfl, rfl⟩
    refine ⟨List.takeWhile_append_dropWhile.symm, fun c => List.mem_takeWhile_imp, ?_⟩
    intro c first
    have := List.head?_dropWhile_not p cs
    rwa [Option.mem_def.1 first] at this
  · rintro ⟨rfl, kept, stops⟩
    rw [List.takeWhile_append_of_pos kept, List.dropWhile_append_of_pos kept]
    cases rest with
    | nil => simp
    | cons c rest => simp [stops c rfl]

/-- `read? (name ++ rest) = some (t, rest)` if `name` spells `t` and `t` ends there. -/
theorem Token.read?_of_spells (spells : t.Spells name) (ends : t.EndsBefore rest) :
    read? (name ++ rest) = some (t, rest) := by
  cases spells with
  | opening => rfl
  | closing => rfl
  | symbol nonempty chars =>
    obtain ⟨c, name, rfl⟩ := List.exists_cons_of_ne_nil nonempty
    obtain ⟨first, others⟩ := List.forall_mem_cons.1 chars
    obtain ⟨taken, left⟩ := takeWhile_dropWhile_iff.2 ⟨rfl, others, ends⟩
    -- A character of a symbol is neither a parenthesis nor a quotation mark.
    have noMark : isQuotationMark c = false := by
      simp only [isSymbolChar, Bool.and_eq_true, bne_iff_ne] at first
      simp [isQuotationMark, first.1.2, first.2]
    rw [List.cons_append, read?, if_neg, if_neg, noMark, if_neg Bool.false_ne_true, if_pos first,
      taken, left]
    · rintro rfl
      cases first
    · rintro rfl
      cases first
  | @quoted mark chars isMark proper =>
    have inside : quotedText? mark (chars.flatMap (·.written) ++ mark :: rest) =
        some (chars.map (·.char), rest) :=
      (quotedText?_eq_some_iff isMark).2 ⟨chars, proper, rfl, rfl⟩
    rw [quotation, List.cons_append, List.append_assoc, read?, if_neg, if_neg, if_pos isMark]
    · rw [List.singleton_append, inside]
    · rintro rfl
      cases isMark
    · rintro rfl
      cases isMark

/-- `read? cs = some (t, rest)` for a whole token only if `cs` starts with something that spells
`t`. -/
theorem Token.exists_spells_of_read? (h : read? cs = some (t, rest)) (whole : t.IsWhole) :
    ∃ name, t.Spells name ∧ cs = name ++ rest ∧ t.EndsBefore rest := by
  match cs with
  | [] => cases h
  | c :: cs =>
    rw [read?] at h
    -- The first character decides which kind of token is read.
    split_ifs at h with opening closing isMark first
    · obtain ⟨rfl, rfl⟩ := Prod.mk.inj (Option.some.inj h)
      exact ⟨['('], .opening, congrArg (· :: cs) opening, trivial⟩
    · obtain ⟨rfl, rfl⟩ := Prod.mk.inj (Option.some.inj h)
      exact ⟨[')'], .closing, congrArg (· :: cs) closing, trivial⟩
    · split at h
      · next text after found =>
        obtain ⟨rfl, rfl⟩ := Prod.mk.inj (Option.some.inj h)
        obtain ⟨chars, proper, rfl, rfl⟩ := (quotedText?_eq_some_iff isMark).1 found
        exact ⟨_, .quoted isMark proper, by simp [quotation], trivial⟩
      · obtain ⟨rfl, -⟩ := Prod.mk.inj (Option.some.inj h)
        exact absurd rfl whole.1
    · obtain ⟨rfl, rfl⟩ := Prod.mk.inj (Option.some.inj h)
      obtain ⟨same, chars, ends⟩ := takeWhile_dropWhile_iff.1 ⟨rfl, rfl⟩
      refine ⟨_, .symbol (List.cons_ne_nil c _) (List.forall_mem_cons.2 ⟨first, chars⟩), ?_, ends⟩
      exact congrArg (c :: ·) same
    · obtain ⟨rfl, -⟩ := Prod.mk.inj (Option.some.inj h)
      exact absurd rfl whole.2

end ClausalForm.Clif
