import ClausalForm.Proofs.Slices
import Mathlib

/-! # Sources that are kept

A statement keeps the text of the sentence that it was read from. That text is a slice of the whole
one, and read on its own it gives the same statement.

* **`Clif.exists_slice_of_makeUp`**: a node in a text is made up by a slice of the text.
* **`Clif.MakeUp.source_eq`**: the source of a node that a slice makes up is the slice.
* **`Clif.Document.read_source`**: the source of a statement is read as that statement alone. -/

namespace ClausalForm.Clif

variable {ts own : List PlacedToken} {node : Node} {nodes : List Node} {text part : List Char}

/-! ## Nodes and slices -/

/-- `shift n` and then `relocate (· - n)` leave tokens as they are. -/
theorem map_relocate_shift (n : Nat) : (ts.map (.shift n)).map (.relocate (· - n)) = ts := by
  rw [List.map_map]
  refine List.map_id'' (fun t => ?_) ts
  simp [PlacedToken.shift, PlacedToken.relocate]

/-- `MakeUp (ts.map (shift n)) [node]` only if `node` has been moved by `n` itself. -/
theorem MakeUp.exists_of_shift {n : Nat} (h : MakeUp (ts.map (.shift n)) [node]) :
    ∃ inner : Node, MakeUp ts [inner] ∧ node = inner.shift n := by
  have back : MakeUp ts [node.relocate (· - n)] := by
    have moved := h.relocate (f := (· - n))
    rwa [map_relocate_shift] at moved
  -- Both nodes are the forest of the same tokens.
  have same := h.forest_eq.symm.trans (back.shift n).forest_eq
  exact ⟨_, back, (List.cons.inj (Prod.mk.inj (Except.ok.inj same)).1).1⟩

/-- `MakeUp own [node]`, for tokens of a text in a row, is `MakeUp (tokens part)` of a slice, moved
by what follows it. -/
theorem exists_slice_of_makeUp (paired : ReturnsPaired text) (row : own <:+: tokens (skip text))
    (built : MakeUp own [node]) : ∃ before part after inner, text = before ++ (part ++ after) ∧
      IsSlice part ∧ MakeUp (tokens part) [inner] ∧ node = inner.shift (Text.utf8Size after) := by
  obtain ⟨earlier, more, all⟩ := row
  rw [List.append_assoc] at all
  obtain ⟨ds, suffix, fixed, behind⟩ := exists_suffix_of_tokens_eq (skip_skip text) all.symm
  have nonempty : own ≠ [] := by
    rintro rfl
    cases built
  have within := suffix.trans (skip_suffix text)
  obtain ⟨part, after, rfl, slice, same⟩ :=
    exists_slice fixed (paired.of_suffix within) built.isWhole nonempty behind
  obtain ⟨before, whole⟩ := within
  obtain ⟨inner, made, moved⟩ := (same ▸ built).exists_of_shift
  exact ⟨before, part, after, inner, whole.symm, slice, made, moved⟩

/-- `node.source part = part` for the node that a slice makes up, unless it is a quoted string. -/
theorem MakeUp.source_eq (built : MakeUp (tokens part) [node]) (slice : IsSlice part)
    (unquoted : ∀ text start, node ≠ .quoted text start) : node.source part = .ofList part := by
  have last := slice.last
  generalize all : tokens part = ts at built last
  cases built with
  | @symbol name start stop ts _ others =>
    cases others
    obtain ⟨rest, read, place, rfl, -⟩ := tokens_eq_cons_iff.1 all
    have atEnd : rest = [] := (eq_of_suffix List.nil_suffix (last _ rfl).symm).symm
    obtain ⟨_, spells, rfl, -⟩ := Token.exists_spells_of_read? read ⟨nofun, nofun⟩
    cases spells
    rw [atEnd] at place ⊢
    -- The name of the symbol is all that the slice is.
    have spelled {part : List Char} : part ++ [] = [] ++ ((String.ofList part).toList ++ []) := by
      rw [String.toList_ofList, List.nil_append]
    rw [Document.source_symbol spelled (by rw [String.toList_ofList]; exact place), List.append_nil]
  | quoted => exact absurd rfl (unquoted _ _)
  | @list start opened closed stop inner ts items _ inside others =>
    cases others
    obtain ⟨rest, -, rfl, -, -⟩ := tokens_eq_cons_iff.1 all
    rw [← List.cons_append, List.getLast?_concat] at last
    have atEnd : stop = 0 := last _ rfl
    rw [atEnd, Node.source, Text.between_self]

/-! ## Sources of statements -/

namespace Document

/-- **Sources.** `(read source).result = .ok ⟨[s], []⟩` for every statement `s` of a text, in which
every carriage return stands before a line feed: its source is read as that statement alone. -/
theorem read_source (text : String) (d : Document) (paired : ReturnsPaired text.toList)
    (h : (read text).result = .ok d) : ∀ s ∈ d.statements,
      ∃ source, s.source = some source ∧ (read source).result = .ok ⟨[s], []⟩ := by
  intro s mem
  obtain ⟨own, node, row, built, plain, sentence⟩ := exists_sentence_of_read h s mem
  obtain ⟨before, part, after, inner, whole, slice, made, rfl⟩ :=
    exists_slice_of_makeUp paired row built
  -- The sentence stands for the same statement in the slice.
  have standing : ∀ t ∈ tokens part, t.StandsIn part := by
    have all := @standsIn_of_mem_tokens part
    rwa [slice.fixed] at all
  have inside := made.builtFrom standing inner List.mem_cons_self
  rw [whole, ofSentence_shift_iff before after inside] at sentence
  have plain' : inner.IsPlain := Node.relocate_shift (Text.utf8Size after) inner ▸ plain.relocate
  have source : s.source = some (.ofList part) := by
    obtain ⟨φ, read, same⟩ := bind_eq_ok_iff.1 sentence
    have unquoted : ∀ text start, inner ≠ .quoted text start := by
      rintro text start rfl
      cases reads_of_sentence read
    obtain ⟨rfl, -⟩ := List.cons.inj (Document.mk.inj (Except.ok.inj same)).1
    exact congrArg some (made.source_eq slice unquoted)
  refine ⟨.ofList part, source, read_eq_ok_iff.2 ⟨[inner], [⟨[s], []⟩], ?_, ?_, rfl⟩⟩
  · rw [String.toList_ofList, nodes_eq_ok_iff, slice.fixed]
    exact made
  · rw [String.toList_ofList, inOrder_map_eq_ok]
    exact .cons ((ofNode_of_isPlain plain').trans sentence) .nil

/-- A text with a line comment, a block comment, an umlaut and wrappers, in which the symbol `/*/`
starts like a comment. -/
def wrappedSentences : String :=
  "(cl-text t // é\r\n (cl-comment 'c' (P 'ü' /* ) */ é)))\r\n/*/ (cl-imports q)"

/-- The document with the statements `P(ü(),é())` and `divtimesdiv()`. -/
def wrappedSentencesRead : Document where
  statements := [⟨.atom ⟨"P", [.app "ü" [], .app "é" []]⟩, some "(P 'ü' /* ) */ é)"⟩,
    ⟨.atom ⟨"divtimesdiv", []⟩, some "/*/"⟩]
  imports := ["q"]

set_option maxRecDepth 10000 in
/-- `wrappedSentences` are read again, one by one, from their sources. -/
theorem read_source_wrappedSentences :
    ReturnsPaired wrappedSentences.toList ∧
      (read wrappedSentences).result = .ok wrappedSentencesRead ∧
      ∀ s ∈ wrappedSentencesRead.statements,
        ∃ source, s.source = some source ∧ (read source).result = .ok ⟨[s], []⟩ := by
  have paired : ReturnsPaired wrappedSentences.toList := by
    simp [wrappedSentences, returnsPaired_cons_iff, returnsPaired_nil]
  have all : (read wrappedSentences).result = .ok wrappedSentencesRead := by
    rw [result_read]
    cbv
  exact ⟨paired, all, read_source _ _ paired all⟩

end Document

end ClausalForm.Clif
