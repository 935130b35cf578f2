import ClausalForm.Proofs.ShiftedNodes
import Mathlib

/-! # Renderings of trees

A forest can be written in many ways: with either kind of quotation mark, with more characters
behind backslashes than have to be, and with blanks and comments wherever one token ends. All that
is needed is a gap between two symbols, and a blank in front of a comment after a symbol. Whichever
way is taken, the nodes that are read are those of the forest, at the places where they were
written.

* **`Clif.Writing`**: a forest with the characters that it is written with.
* **`Clif.Writing.IsProper`**: what is asked of them.
* **`Clif.Writing.exists_isProper_iff`**: which forests can be written properly.
* **`Clif.Writing.IsProper.exists_tokens`**: the tokens of a forest that is written properly.
* **`Clif.Document.nodes_of_isProper`**: the nodes of a forest that is written properly. -/

namespace ClausalForm.Clif

/-! ## Trees -/

/-- A node without its places. -/
inductive Tree where
  | symbol (name : String)
  | quoted (text : String)
  | list (items : List Tree)
deriving Repr, Inhabited

/-- `IsSymbol name`: the characters can be written for a symbol. There is one at least, each of them
may stand in a symbol, and the first two do not open a comment. -/
structure IsSymbol (name : List Char) : Prop where
  nonempty : name ≠ []
  chars : ∀ c ∈ name, isSymbolChar c = true
  noLine : ¬ ['/', '/'] <+: name
  noBlock : ¬ ['/', '*'] <+: name

/-- `tree.IsWritable`: the names of its symbols can be written for a symbol. -/
inductive Tree.IsWritable : Tree → Prop
  | symbol {name : String} (isSymbol : IsSymbol name.toList) : IsWritable (.symbol name)
  | quoted {text : String} : IsWritable (.quoted text)
  | list {items : List Tree} (each : ∀ tree ∈ items, tree.IsWritable) : IsWritable (.list items)

/-- `node.tree`: the node without its places. -/
def Node.tree : Node → Tree
  | symbol name _ => .symbol name
  | quoted text _ => .quoted text
  | list items _ _ => .list (items.map tree)

/-- `node.parts`: the node and the nodes in it, each before those in it. -/
def Node.parts : Node → List Node
  | symbol name start => [symbol name start]
  | quoted text start => [quoted text start]
  | list items start stop => list items start stop :: items.flatMap parts

/-! ## Forests as they are written -/

/-- A forest as it is written, each tree with the `gap` after it. A `list` has one more gap, after
its opening parenthesis. -/
inductive Writing where
  | nil
  | symbol (name gap : List Char) (others : Writing)
  | quoted (mark : Char) (chars : List QuotedChar) (gap : List Char) (others : Writing)
  | list (inner : List Char) (items : Writing) (gap : List Char) (others : Writing)
deriving Repr

/-- A part of a text, `chars`, with the text `behind` it. -/
structure Slice where
  chars : List Char
  behind : List Char
deriving Repr

namespace Writing

variable {w others : Writing} {behind rest gap name text : List Char}

/-- `w.trees`: the forest that is written. -/
def trees : Writing → List Tree
  | nil => []
  | symbol name _ others => .symbol (.ofList name) :: others.trees
  | quoted _ chars _ others => .quoted (.ofList (chars.map (·.char))) :: others.trees
  | list _ items _ others => .list items.trees :: others.trees

/-- The characters of the forest, followed by those of `behind`. -/
def followedBy (behind : List Char) : Writing → List Char
  | nil => behind
  | symbol name gap others => name ++ (gap ++ others.followedBy behind)
  | quoted mark chars gap others => quotation mark chars ++ (gap ++ others.followedBy behind)
  | list inner items gap others =>
    '(' :: (inner ++ items.followedBy (')' :: (gap ++ others.followedBy behind)))

/-- What each tree and each tree in it is written with, a tree before those in it, where the text
`behind` follows the forest. -/
def slices (behind : List Char) : Writing → List Slice
  | nil => []
  | symbol name gap others =>
    ⟨name, gap ++ others.followedBy behind⟩ :: others.slices behind
  | quoted mark chars gap others =>
    ⟨quotation mark chars, gap ++ others.followedBy behind⟩ :: others.slices behind
  | list inner items gap others =>
    ⟨'(' :: (inner ++ items.followedBy [')']), gap ++ others.followedBy behind⟩ ::
      (items.slices (')' :: (gap ++ others.followedBy behind)) ++ others.slices behind)

/-- `w.startsWithSymbol`: whether the first tree is a symbol. -/
def startsWithSymbol : Writing → Bool
  | symbol .. => true
  | nil | quoted .. | list .. => false

/-- `EndsSymbol gap others`: the gap ends a symbol in front of the other trees. It starts with a
blank, or it is empty and the next tree is no symbol. -/
structure EndsSymbol (gap : List Char) (others : Writing) : Prop where
  blank : ∀ c ∈ gap.head?, Text.isBlank c = true
  apart : gap = [] → others.startsWithSymbol = false

/-- The forest is written properly in front of the text `behind`: its symbols are symbols and end
where they should, its quoted strings have their marks, and only blanks and comments stand
between. -/
inductive IsProper : List Char → Writing → Prop
  | nil {behind : List Char} : IsProper behind nil
  | symbol {behind name gap : List Char} {others : Writing} (isSymbol : IsSymbol name)
      (ends : EndsSymbol gap others) (isGap : IsGap (others.followedBy behind) gap)
      (more : IsProper behind others) : IsProper behind (symbol name gap others)
  | quoted {behind gap : List Char} {mark : Char} {chars : List QuotedChar} {others : Writing}
      (isMark : isQuotationMark mark = true) (proper : ∀ c ∈ chars, c.IsProper mark)
      (isGap : IsGap (others.followedBy behind) gap) (more : IsProper behind others) :
      IsProper behind (quoted mark chars gap others)
  | list {behind inner gap : List Char} {items others : Writing}
      (isInner : IsGap (items.followedBy (')' :: (gap ++ others.followedBy behind))) inner)
      (inside : IsProper (')' :: (gap ++ others.followedBy behind)) items)
      (isGap : IsGap (others.followedBy behind) gap) (more : IsProper behind others) :
      IsProper behind (list inner items gap others)

/-! ## Which forests can be written -/

/-- `ofTrees trees`: a way to write a forest, with a blank behind each symbol, and each character of
a quoted string behind a backslash. -/
def ofTrees : List Tree → Writing
  | [] => nil
  | .symbol name :: trees => symbol name.toList [' '] (ofTrees trees)
  | .quoted text :: trees => quoted '\x22' (text.toList.map (⟨·, true⟩)) [] (ofTrees trees)
  | .list items :: trees => list [] (ofTrees items) [] (ofTrees trees)

/-- `(ofTrees forest).trees = forest`. -/
theorem trees_ofTrees (forest : List Tree) : (ofTrees forest).trees = forest := by
  fun_induction ofTrees forest with
  | case1 => rfl
  | case2 name others ih => rw [trees, ih, String.ofList_toList]
  | case3 text others ih =>
    rw [trees, ih, List.map_map]
    simp [Function.comp_def]
  | case4 items others ihItems ih => rw [trees, ih, ihItems]

/-- `(ofTrees forest).IsProper behind` if each tree can be written. -/
theorem isProper_ofTrees {forest : List Tree} (each : ∀ tree ∈ forest, tree.IsWritable) :
    (ofTrees forest).IsProper behind := by
  fun_induction ofTrees forest generalizing behind with
  | case1 => exact .nil
  | case2 name others ih =>
    obtain ⟨first, others⟩ := List.forall_mem_cons.1 each
    obtain ⟨isSymbol⟩ := first
    exact .symbol isSymbol ⟨by simp [Text.isBlank], by simp⟩ (.blank rfl .nil) (ih others)
  | case3 text others ih =>
    exact .quoted rfl (by simp [QuotedChar.IsProper]) .nil (ih (List.forall_mem_cons.1 each).2)
  | case4 items others ihItems ih =>
    obtain ⟨first, others⟩ := List.forall_mem_cons.1 each
    obtain ⟨⟩ | ⟨⟩ | ⟨inside⟩ := first
    exact .list .nil (ihItems inside) .nil (ih others)

/-- `w.IsProper behind` only if each tree of `w` can be written. -/
theorem IsProper.isWritable (proper : w.IsProper behind) : ∀ tree ∈ w.trees, tree.IsWritable := by
  induction proper with
  | nil => exact List.forall_mem_nil _
  | symbol isSymbol _ _ _ ih =>
    exact List.forall_mem_cons.2 ⟨.symbol (by rwa [String.toList_ofList]), ih⟩
  | quoted _ _ _ _ ih => exact List.forall_mem_cons.2 ⟨.quoted, ih⟩
  | list _ _ _ _ ihInside ih => exact List.forall_mem_cons.2 ⟨.list ihInside, ih⟩

/-- **Forests that can be written.** `forest` is that of some proper writing exactly if each of its
trees `IsWritable`. -/
theorem exists_isProper_iff {forest : List Tree} :
    (∃ w : Writing, w.IsProper [] ∧ w.trees = forest) ↔ ∀ tree ∈ forest, tree.IsWritable := by
  constructor
  · rintro ⟨w, proper, rfl⟩
    exact proper.isWritable
  · exact fun each => ⟨ofTrees forest, isProper_ofTrees each, trees_ofTrees forest⟩

/-! ## Their nodes -/

/-- The nodes of the forest, where the text `behind` follows it. -/
def nodes (behind : List Char) : Writing → List Node
  | nil => []
  | symbol name gap others =>
    .symbol (.ofList name) (Text.utf8Size (name ++ (gap ++ others.followedBy behind))) ::
      others.nodes behind
  | quoted mark chars gap others =>
    .quoted (.ofList (chars.map (·.char)))
        (Text.utf8Size (quotation mark chars ++ (gap ++ others.followedBy behind))) ::
      others.nodes behind
  | list inner items gap others =>
    .list (items.nodes (')' :: (gap ++ others.followedBy behind)))
        (Text.utf8Size
          ('(' :: (inner ++ items.followedBy (')' :: (gap ++ others.followedBy behind)))))
        (Text.utf8Size (gap ++ others.followedBy behind)) ::
      others.nodes behind

/-- `(w.nodes behind).map Node.tree = w.trees`. -/
theorem map_tree_nodes (w : Writing) : (w.nodes behind).map Node.tree = w.trees := by
  induction w generalizing behind with
  | nil => rfl
  | symbol name gap others ih | quoted mark chars gap others ih =>
    rw [nodes, trees, List.map_cons, ih, Node.tree]
  | list inner items gap others ihItems ih =>
    rw [nodes, trees, List.map_cons, ih, Node.tree, ihItems]

/-- `w.followedBy (behind ++ rest) = w.followedBy behind ++ rest`. -/
theorem followedBy_append (w : Writing) :
    w.followedBy (behind ++ rest) = w.followedBy behind ++ rest := by
  induction w generalizing behind with
  | nil => rfl
  | symbol name gap others ih | quoted mark chars gap others ih =>
    rw [followedBy, followedBy, ih, List.append_assoc, List.append_assoc]
  | list inner items gap others ihItems ih =>
    have inside := @ihItems (')' :: (gap ++ others.followedBy behind))
    rw [List.cons_append, List.append_assoc] at inside
    rw [followedBy, followedBy, ih, inside, List.cons_append, List.append_assoc]

/-- `IsSliceNode text slice node`: the node starts where the slice of the text does, and its source
is the slice, unless it is a quoted string. -/
structure IsSliceNode (text : List Char) (slice : Slice) (node : Node) : Prop where
  within : slice.chars ++ slice.behind <:+ text
  start : node.start = Text.utf8Size (slice.chars ++ slice.behind)
  source : (∀ s start, node ≠ .quoted s start) → node.source text = .ofList slice.chars

/-- `w.nodes behind` and the nodes in them are those of `w.slices behind`, one by one. -/
theorem isSliceNode_nodes (w : Writing) (within : w.followedBy behind <:+ text) :
    List.Forall₂ (IsSliceNode text) (w.slices behind) ((w.nodes behind).flatMap Node.parts) := by
  induction w generalizing behind with
  | nil => exact .nil
  | symbol name gap others ih =>
    rw [slices, nodes, List.flatMap_cons, Node.parts]
    have later := (List.suffix_append gap _).trans ((List.suffix_append name _).trans within)
    refine .cons ⟨within, rfl, fun _ => ?_⟩ (ih later)
    obtain ⟨before, same⟩ := within
    exact Document.source_symbol (by rw [String.toList_ofList]; exact same.symm)
      (by rw [String.toList_ofList])
  | quoted mark chars gap others ih =>
    rw [slices, nodes, List.flatMap_cons, Node.parts]
    have later := (List.suffix_append gap _).trans ((List.suffix_append _ _).trans within)
    exact .cons ⟨within, rfl, fun unquoted => absurd rfl (unquoted _ _)⟩ (ih later)
  | list inner items gap others ihItems ih =>
    rw [slices, nodes, List.flatMap_cons, Node.parts]
    -- The list with its parentheses, and then its items, as parts of one text.
    have whole : '(' :: (inner ++ items.followedBy [')']) ++ (gap ++ others.followedBy behind) =
        '(' :: (inner ++ items.followedBy (')' :: (gap ++ others.followedBy behind))) := by
      rw [List.cons_append, List.append_assoc, ← followedBy_append, List.singleton_append]
    have inside : items.followedBy (')' :: (gap ++ others.followedBy behind)) <:+ text :=
      ((List.suffix_append inner _).trans (List.suffix_cons '(' _)).trans within
    rw [followedBy, ← whole] at within
    have later := (List.suffix_append gap _).trans ((List.suffix_append _ _).trans within)
    refine .cons ⟨within, congrArg Text.utf8Size whole.symm, fun _ => ?_⟩
      (List.rel_append (ihItems inside) (ih later))
    obtain ⟨before, rfl⟩ := within
    rw [← whole, Node.source, Text.between_of_append]

/-! ## Their tokens -/

/-- `EndsForest rest`: a forest ends here, with the text or at the parenthesis that closes the list
around it. -/
inductive EndsForest : List Char → Prop
  | nil : EndsForest []
  | closing {rest : List Char} : EndsForest (')' :: rest)

/-- `EndsSymbol gap others` leaves no character of a symbol behind one. -/
theorem EndsSymbol.stops (ends : EndsSymbol gap others) (proper : IsProper behind others)
    (final : EndsForest behind) :
    ∀ c ∈ (gap ++ others.followedBy behind).head?, isSymbolChar c = false := by
  cases gap with
  | cons d gap =>
    rintro c ⟨⟩
    rw [isSymbolChar, Text.isSpace_of_isBlank (ends.blank d rfl)]
    rfl
  | nil =>
    rw [List.nil_append]
    -- Without a gap, what follows is decided by the next tree, or by what ends the forest.
    cases proper with
    | nil =>
      cases final with
      | nil => rintro c ⟨⟩
      | closing =>
        rintro c ⟨⟩
        rfl
    | symbol => cases ends.apart rfl
    | quoted isMark =>
      rintro c ⟨⟩
      rcases isQuotationMark_iff.1 isMark with rfl | rfl <;> rfl
    | list =>
      rintro c ⟨⟩
      rfl

/-- `skip (w.followedBy behind) = w.followedBy behind`: a forest starts with no gap. -/
theorem IsProper.skip_eq (proper : IsProper behind w) (final : EndsForest behind) :
    skip (w.followedBy behind) = w.followedBy behind := by
  cases proper with
  | nil =>
    cases final with
    | nil => rw [followedBy, skip]
    | closing => exact skip_closing
  | symbol isSymbol ends _ more =>
    exact skip_symbol isSymbol.nonempty isSymbol.chars isSymbol.noLine isSymbol.noBlock
      (ends.stops more final)
  | quoted isMark => exact skip_quotationMark isMark
  | list => exact skip_opening

/-- `tokens (w.followedBy behind)` start with tokens that make up `w.nodes behind`. -/
theorem IsProper.exists_tokens (proper : IsProper behind w) (final : EndsForest behind) :
    ∃ ts, tokens (w.followedBy behind) = ts ++ tokens behind ∧ MakeUp ts (w.nodes behind) := by
  induction proper with
  | nil => exact ⟨[], rfl, .nil⟩
  | symbol isSymbol ends isGap more ih =>
    obtain ⟨ts, others, built⟩ := ih final
    have first := tokens_of_spells_of_isGap (.symbol isSymbol.nonempty isSymbol.chars)
      (ends.stops more final) isGap (more.skip_eq final)
    exact ⟨_ :: ts, by rw [followedBy, first, others, List.cons_append], .symbol built⟩
  | quoted isMark proper isGap more ih =>
    obtain ⟨ts, others, built⟩ := ih final
    have first := tokens_of_spells_of_isGap (.quoted isMark proper) trivial isGap
      (more.skip_eq final)
    exact ⟨_ :: ts, by rw [followedBy, first, others, List.cons_append], .quoted built⟩
  | @list behind inner gap items others isInner inside isGap more ihInside ih =>
    obtain ⟨us, innerTokens, builtInside⟩ := ihInside .closing
    obtain ⟨ts, otherTokens, built⟩ := ih final
    have opening := tokens_of_spells_of_isGap .opening trivial isInner (inside.skip_eq .closing)
    have closing := tokens_of_spells_of_isGap .closing trivial isGap (more.skip_eq final)
    rw [List.singleton_append] at opening closing
    -- The tokens of a list are those of its items between its two parentheses.
    let rest := gap ++ others.followedBy behind
    let opened := Text.utf8Size (inner ++ items.followedBy (')' :: rest))
    let closed := Text.utf8Size (')' :: rest)
    refine ⟨⟨.opening, _, opened⟩ :: (us ++ ⟨.closing, closed, _⟩ :: ts), ?_,
      .list builtInside built⟩
    rw [followedBy, opening, innerTokens, closing, otherTokens, List.cons_append, List.append_assoc,
      List.cons_append]

end Writing

/-- **Nodes of a rendering.** `Document.nodes (first ++ w.followedBy [])` succeeds, for blanks and
comments `first` in front of a proper writing, with the nodes of `w.trees`. Each starts where it is
written, and its source is what it is written with, unless it is a quoted string. -/
theorem Document.nodes_of_isProper (first : List Char) (w : Writing) (proper : w.IsProper [])
    (isGap : IsGap (w.followedBy []) first) :
    ∃ found, Document.nodes (first ++ w.followedBy []) = .ok found ∧
      found.map Node.tree = w.trees ∧
      List.Forall₂ (Writing.IsSliceNode (first ++ w.followedBy [])) (w.slices [])
        (found.flatMap Node.parts) := by
  obtain ⟨ts, all, built⟩ := proper.exists_tokens .nil
  rw [tokens_nil, List.append_nil] at all
  refine ⟨w.nodes [], ?_, w.map_tree_nodes, w.isSliceNode_nodes (List.suffix_append _ _)⟩
  rw [Document.nodes_eq_ok_iff, isGap.skip_append, proper.skip_eq .nil, all]
  exact built

/-- A list of two symbols with a quoted string between them, and one more symbol, with blanks and
comments of all kinds. -/
def layout : Writing :=
  .list ['\n'] (.symbol ['é'] ['\t', '/', '*', ')', '*', '/'] <|
      .quoted '\x22' [⟨'(', false⟩, ⟨'\x22', true⟩, ⟨'ü', true⟩] [] <|
      .symbol ['a', '/'] [] .nil) [] <|
    .symbol ['b'] [' ', '/', '/', '(', '\r', '\n', '/', '/', 'é'] .nil

/-- `layout` is written properly. -/
theorem isProper_layout : layout.IsProper [] := by
  have block (rest : List Char) : IsGap rest ['\t', '/', '*', ')', '*', '/'] :=
    .blank rfl (@IsGap.block _ [')'] [] (by decide) .nil)
  have atEnd : IsGap [] ['/', '/', 'é'] := @IsGap.line _ ['é'] [] (by simp [IsLine]) .nil .nil
  have lines : IsGap [] [' ', '/', '/', '(', '\r', '\n', '/', '/', 'é'] :=
    .blank rfl <| @IsGap.line _ ['('] ['\r', '\n', '/', '/', 'é'] (by simp [IsLine]) .returned <|
      .blank rfl <| .blank rfl atEnd
  have chars : ∀ c ∈ ['é', 'a', '/', 'b'], isSymbolChar c = true := by
    simp [isSymbolChar, Text.isSpace, Text.inRanges, Text.spaceRanges]
  have accented : IsSymbol ['é'] :=
    ⟨by simp, List.forall_mem_singleton.2 (chars 'é' (by simp)), by simp, by simp⟩
  have slash : IsSymbol ['a', '/'] :=
    ⟨by simp, fun c mem => chars c (.tail _ (List.mem_append_left ['b'] mem)), by simp, by simp⟩
  have plain : IsSymbol ['b'] :=
    ⟨by simp, List.forall_mem_singleton.2 (chars 'b' (by simp)), by simp, by simp⟩
  refine .list (.blank rfl .nil) (.symbol accented ⟨?_, ?_⟩ (block _) (.quoted rfl ?_ .nil ?_)) .nil
    (.symbol plain ⟨?_, ?_⟩ lines .nil)
  · simp [Text.isBlank]
  · simp
  · simp [QuotedChar.IsProper]
  · exact .symbol slash ⟨by simp, fun _ => rfl⟩ .nil .nil
  · simp [Text.isBlank]
  · simp

/-- A block comment, a line comment and a line end in front of `layout`. -/
def beforeLayout : List Char := ['/', '*', '/', '*', '/', '/', '/', '\n']

/-- `layout` is read behind `beforeLayout`. -/
theorem Document.nodes_of_isProper_layout :
    layout.IsProper [] ∧ IsGap (layout.followedBy []) beforeLayout ∧
      ∃ found, Document.nodes (beforeLayout ++ layout.followedBy []) = .ok found ∧
        found.map Node.tree = layout.trees ∧
        List.Forall₂ (Writing.IsSliceNode (beforeLayout ++ layout.followedBy []))
          (layout.slices []) (found.flatMap Node.parts) := by
  have isGap : IsGap (layout.followedBy []) beforeLayout :=
    @IsGap.block _ ['/'] ['/', '/', '\n'] (by decide) <|
      @IsGap.line _ [] ['\n'] (List.forall_mem_nil _) .lineFeed (.blank rfl .nil)
  exact ⟨isProper_layout, isGap, nodes_of_isProper _ _ isProper_layout isGap⟩

end ClausalForm.Clif
