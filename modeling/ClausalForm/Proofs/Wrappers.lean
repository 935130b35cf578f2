import ClausalForm.Proofs.BuiltNodes

/-! # Wrappers and the sentences in them

A node of a document is an import, a text or a comment that wraps other nodes, or a sentence. The
statements of a document are those of the sentences in its nodes, at any depth.

* **`Clif.Node.IsPlain`**: a node that is no wrapper.
* **`Clif.Document.ofNode_text`**, **`Clif.Document.ofNode_comment`**,
  **`Clif.Document.ofNode_of_isPlain`**: the document of a node, one equation per kind.
* **`Clif.Document.exists_sentence_of_read`**: a statement of a text is that of a sentence, which
  some of the text's tokens make up. -/

namespace ClausalForm.Clif

variable {node : Node} {nodes : List Node} {ts : List PlacedToken}

/-- `node.IsPlain`: the node is no list that starts with the name of a wrapper. -/
def Node.IsPlain (node : Node) : Prop := ∀ head place items start stop,
  node = .list (.symbol head place :: items) start stop → Wrapper.ofName? head = none

namespace Document

variable {text : List Char} {d : Document}

section Kinds

variable {head : String} {place start stop : Nat} {items : List Node}

/-- `Wrapper.ofName? head = some .text`: the document of a wrapped text is that of its contents. -/
theorem ofNode_text (wrapper : Wrapper.ofName? head = some .text) :
    ofNode text (.list (.symbol head place :: items) start stop) =
      concat <$> inOrder ((textContents items).map (ofNode text)) := by
  rw [ofNode, ← List.attach_map_val (l := textContents items)]
  simp only [wrapper]
  rfl

/-- `Wrapper.ofName? head = some .comment`: the document of a comment is that of what stands after
its first item. -/
theorem ofNode_comment (wrapper : Wrapper.ofName? head = some .comment) :
    ofNode text (.list (.symbol head place :: items) start stop) =
      concat <$> inOrder ((items.drop 1).map (ofNode text)) := by
  rw [ofNode, ← List.attach_map_val (l := items.drop 1)]
  simp only [wrapper]
  rfl

/-- `Wrapper.ofName? head = some .imports`: an import holds the name that its first item names. -/
theorem ofNode_imports_eq_ok_iff (wrapper : Wrapper.ofName? head = some .imports) :
    ofNode text (.list (.symbol head place :: items) start stop) = .ok d ↔
      ∃ name, items.head?.bind Node.name? = some name ∧ { imports := [name] } = d := by
  rw [ofNode]
  simp only [wrapper]
  cases items.head?.bind Node.name? <;> simp

/-- `ofNode text node = ofSentence text node`: the document of a node without a wrapper is that of a
sentence. -/
theorem ofNode_of_isPlain (plain : node.IsPlain) : ofNode text node = ofSentence text node := by
  match node with
  | .list (.symbol head place :: items) start stop =>
    rw [ofNode]
    simp only [plain _ _ _ _ _ rfl]
  | .symbol .. | .quoted .. | .list [] .. | .list (.quoted .. :: _) .. | .list (.list .. :: _) .. =>
    rw [ofNode]
    simp

end Kinds

/-! ## Sentences -/

/-- What holds of the statements of each document holds of the statements of all of them. -/
theorem forall_statements_of_inOrder {ε α : Type} {f : α → Except ε Document} {as : List α}
    {ds : List Document} {p : Statement → Prop} (read : inOrder (as.map f) = .ok ds)
    (each : ∀ a ∈ as, ∀ d, f a = .ok d → ∀ s ∈ d.statements, p s) :
    ∀ s ∈ (concat ds).statements, p s := by
  refine List.forall_mem_flatMap.2 ?_
  intro d mem
  obtain ⟨a, among, found⟩ := forall₂_right (inOrder_map_eq_ok.1 read) mem
  exact each a among d found

/-- `d = ⟨[s], []⟩`: the document of a sentence holds one statement, and no import. -/
theorem eq_of_ofSentence (h : ofSentence text node = .ok d) :
    ∀ s ∈ d.statements, d = ⟨[s], []⟩ := by
  obtain ⟨φ, -, same⟩ := bind_eq_ok_iff.1 h
  obtain rfl := Except.ok.inj same
  exact List.forall_mem_singleton.2 rfl

/-- `ofNode text node = .ok d`: a statement of a node is that of a sentence in the node. -/
theorem exists_sentence_of_ofNode (h : ofNode text node = .ok d) : ∀ s ∈ d.statements,
    ∃ part, node.HasPart part ∧ part.IsPlain ∧ ofSentence text part = .ok ⟨[s], []⟩ := by
  -- A wrapper has the statements of its items. Any other node is a sentence itself.
  fun_induction ofNode text node generalizing d with
  | case1 head headStart items start stop wrapper ih =>
    obtain ⟨ds, read, same⟩ := bind_eq_ok_iff.1 h
    obtain rfl := Except.ok.inj same
    refine forall_statements_of_inOrder read fun item _ d found s mem => ?_
    obtain ⟨part, has, sentence⟩ := ih item.1 item.2 found s mem
    exact ⟨part, .item (List.mem_cons_of_mem _ (mem_of_mem_textContents item.2)) has, sentence⟩
  | case2 head headStart items start stop wrapper name named =>
    obtain rfl := Except.ok.inj h
    exact List.forall_mem_nil _
  | case3 => cases h
  | case4 head headStart items start stop wrapper ih =>
    obtain ⟨ds, read, same⟩ := bind_eq_ok_iff.1 h
    obtain rfl := Except.ok.inj same
    refine forall_statements_of_inOrder read fun item _ d found s mem => ?_
    obtain ⟨part, has, sentence⟩ := ih item.1 item.2 found s mem
    exact ⟨part, .item (List.mem_cons_of_mem _ (List.mem_of_mem_drop item.2)) has, sentence⟩
  | case5 head headStart items start stop wrapper =>
    intro s mem
    obtain rfl := eq_of_ofSentence h s mem
    refine ⟨_, .self, ?_, h⟩
    rintro _ _ _ _ _ ⟨⟩
    exact wrapper
  | case6 node other =>
    intro s mem
    obtain rfl := eq_of_ofSentence h s mem
    exact ⟨node, .self, fun _ _ _ _ _ same => (other _ _ _ _ _ same).elim, h⟩

/-- `(read text).result = .ok d`: a statement of a text is that of a sentence, which tokens of the
text in a row make up. -/
theorem exists_sentence_of_read {text : String} (h : (read text).result = .ok d) :
    ∀ s ∈ d.statements, ∃ own node, own <:+: tokens (skip text.toList) ∧ MakeUp own [node] ∧
      node.IsPlain ∧ ofSentence text.toList node = .ok ⟨[s], []⟩ := by
  obtain ⟨found, ds, nodesRead, all, rfl⟩ := read_eq_ok_iff.1 h
  refine forall_statements_of_inOrder all fun node mem d read s among => ?_
  obtain ⟨part, has, sentence⟩ := exists_sentence_of_ofNode read s among
  obtain ⟨own, row, built⟩ := (nodes_eq_ok_iff.1 nodesRead).exists_tokens node mem part has
  exact ⟨own, part, row, built, sentence⟩

end Document

end ClausalForm.Clif
