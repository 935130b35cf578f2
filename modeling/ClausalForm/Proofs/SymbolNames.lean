import ClausalForm.Proofs.BuiltNodes

/-! # Names of symbols

A symbol of the text has a name of at least one character, none of which is a quotation mark. Only
quotation marks are spelled as nothing, so that a predicate or function named by a symbol keeps a
name that is not empty.

* **`Clif.IsSymbolName`**: what a symbol may be named; `spell_ne_empty` is what follows for its
  spelling.
* **`Clif.Node.Lexical`**: a node all of whose symbols are named so.
* **`Clif.lexical_of_mem_tokens`**, **`Clif.Node.BuiltFrom.lexical`**: the symbols of a text are
  named so, and those of nodes that are built from them. -/

namespace ClausalForm.Clif

/-! ## Names -/

/-- `IsSymbolName name`: what a symbol may be named, which is at least one character, each of which
may stand in a symbol. -/
structure IsSymbolName (name : String) : Prop where
  some : name ≠ ""
  chars : ∀ c ∈ name.toList, isSymbolChar c = true

/-- `Symbol.spellChar c ≠ []`: a character that may stand in a symbol is spelled with at least one
character. -/
theorem spellChar_ne_nil {c : Char} (h : isSymbolChar c = true) : Symbol.spellChar c ≠ [] := by
  have onlyMarks : ∀ p ∈ Symbol.replacements, p.2 = "" → isSymbolChar p.1 = false := by decide
  unfold Symbol.spellChar
  split
  · next text found =>
    rw [List.lookup_eq_some_iff] at found
    obtain ⟨before, after, same, -⟩ := found
    have listed : (c, text) ∈ Symbol.replacements := by simp [same]
    intro none
    rw [onlyMarks _ listed (String.toList_eq_nil_iff.1 none)] at h
    cases h
  · exact List.cons_ne_nil _ _

/-- `Symbol.spell name ≠ ""`: the name of a symbol is not spelled as nothing. -/
theorem IsSymbolName.spell_ne_empty {name : String} (h : IsSymbolName name) :
    Symbol.spell name ≠ "" := by
  rw [ne_eq, ← String.toList_eq_nil_iff, Symbol.toList_spell, List.flatMap_eq_nil_iff]
  intro all
  have some : name.toList ≠ [] := fun none => h.some (String.toList_eq_nil_iff.1 none)
  obtain ⟨c, mem⟩ := List.exists_mem_of_ne_nil _ some
  exact spellChar_ne_nil (h.chars c mem) (all c mem)

/-- A symbol at the start of a text is named by all characters up to the first one that may not
stand in a symbol. -/
theorem Token.isSymbolName_of_read? {cs rest : List Char} {name : String}
    (h : read? cs = some (.symbol name, rest)) : IsSymbolName name := by
  obtain ⟨_, spells, -, -⟩ := exists_spells_of_read? h ⟨nofun, nofun⟩
  cases spells with
  | symbol nonempty chars =>
    refine ⟨fun none => nonempty (String.ofList_eq_empty_iff.1 none), ?_⟩
    rwa [String.toList_ofList]

/-! ## Tokens -/

/-- `t.Lexical`: a token is named as it must be, if it is a symbol. -/
def PlacedToken.Lexical (t : PlacedToken) : Prop :=
  ∀ name, t.token = .symbol name → IsSymbolName name

/-- `t ∈ tokens cs`: the tokens of a text are named as they must be. -/
theorem lexical_of_mem_tokens (cs : List Char) : ∀ t ∈ tokens cs, t.Lexical := by
  fun_induction tokens cs with
  | case1 => exact List.forall_mem_nil _
  | case2 cs t rest found ih =>
    refine List.forall_mem_cons.2 ⟨?_, ih⟩
    rintro name rfl
    exact Token.isSymbolName_of_read? found

/-! ## Nodes -/

/-- `node.Lexical`: every symbol in the node is named as it must be. -/
inductive Node.Lexical : Node → Prop
  | symbol {name : String} {start : Nat} (named : IsSymbolName name) :
      Node.Lexical (.symbol name start)
  | quoted {text : String} {start : Nat} : Node.Lexical (.quoted text start)
  | list {items : List Node} {start stop : Nat} (each : ∀ node ∈ items, node.Lexical) :
      Node.Lexical (.list items start stop)

/-- A node is named as its tokens are. -/
theorem Node.BuiltFrom.lexical {node : Node} (h : node.BuiltFrom PlacedToken.Lexical) :
    node.Lexical := by
  induction h with
  | symbol token => exact .symbol (token _ rfl)
  | quoted => exact .quoted
  | list _ _ ih => exact .list ih

end ClausalForm.Clif
