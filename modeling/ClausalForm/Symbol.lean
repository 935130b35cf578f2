/-! # Spelling of symbols as identifiers

Names such as `<` or `part-of=` are legal in the interchange text but not in the languages that
the normal form is handed to. A predicate or function name is therefore spelled out when it is
built:

* **`Symbol.replacements`**: the characters that are replaced, each with its text.
* **`Symbol.spell`**: every such character replaced, every other character kept. -/

namespace ClausalForm.Symbol

/-- The characters that an identifier may not hold, each with the text written for it. The two
quotation marks and the backslash stand here by their code points. -/
def replacements : List (Char × String) :=
  [ ('<', "lt"), ('>', "gt"), ('=', "eq"), ('+', "plus"), ('*', "times"), ('/', "div"),
    ('\x5c', "bslash"), ('&', "and"), ('|', "or"), ('~', "not"), ('!', "bang"), ('?', "q"),
    ('#', "hash"), ('@', "at"), ('$', "dollar"), ('%', "pct"), ('^', "caret"),
    ('\x27', ""), ('\x22', "") ]

/-- `spellChar c`: the text of `replacements` for `c`, or `c` itself if it is not among them. -/
def spellChar (c : Char) : List Char :=
  match replacements.lookup c with
  | some text => text.toList
  | none => [c]

/-- **Spelling as an identifier.** `spell name` has every character of `name` outside the
identifiers spelled out: `spell "part-of="` is `"part-ofeq"`. -/
def spell (name : String) : String :=
  String.ofList (name.toList.flatMap spellChar)

/-- `(spell name).toList`: spelling works character by character. -/
theorem toList_spell (name : String) : (spell name).toList = name.toList.flatMap spellChar := by
  simp [spell]

end ClausalForm.Symbol
