import ClausalForm.Proofs.Positions
import ClausalForm.Proofs.ShiftedNodes

/-! # Places of faults

A text that is refused is refused for something that stands in it: a node, what is left where no
further node can be read, or a quotation mark without a partner. The position that is reported is
the one where this starts.

* **`Clif.PlacedFault.IsIn`**: a fault at the start of a node or of a node in it. All faults of
  sentences and of wrappers are of this kind.
* **`Clif.Offending`**: what a fault of a text is found at, by the text from there on.
* **`Clif.Node.IsInside`**: a node with its places inside of a text.
* **`Clif.Document.read_error_places`**: each error of a text has the position of what it is found
  at, and no other place has that position. -/

namespace ClausalForm.Clif

variable {f : PlacedFault} {node : Node} {nodes : List Node} {cs rest text : List Char}
  {ts : List PlacedToken}

/-! ## Faults of nodes -/

/-- `f.IsIn node`: the fault is at the start of the node or of a node in it. -/
def PlacedFault.IsIn (f : PlacedFault) (node : Node) : Prop :=
  ∃ part, node.HasPart part ∧ f.start = part.start

namespace PlacedFault.IsIn

/-- `IsIn ⟨fault, node.start⟩ node`. -/
theorem self {fault : Fault} : IsIn ⟨fault, node.start⟩ node := ⟨node, .self, rfl⟩

/-- `f.IsIn item` gives `f.IsIn (.list items start stop)` for an item of the list. -/
theorem item {items : List Node} {item : Node} {start stop : Nat} (h : f.IsIn item)
    (mem : item ∈ items) : f.IsIn (.list items start stop) := by
  obtain ⟨part, has, place⟩ := h
  exact ⟨part, .item mem has, place⟩

/-- `inOrder (some.map g) = .error f` places the fault in the list if `g` places it in the item it
fails at. -/
theorem of_inOrder {α : Type} {g : Node → Except PlacedFault α} {some items : List Node}
    {start stop : Nat} (failed : inOrder (some.map g) = .error f)
    (each : ∀ item ∈ some, g item = .error f → f.IsIn item) (among : ∀ item ∈ some, item ∈ items) :
    f.IsIn (.list items start stop) := by
  obtain ⟨node, mem, found⟩ := exists_of_inOrder_map_eq_error failed
  exact (each node mem found).item (among node mem)

end PlacedFault.IsIn

/-- `term bound node = .error f` only for a node in `node`. -/
theorem isIn_of_term {bound : List String} (h : term bound node = .error f) : f.IsIn node := by
  fun_induction term bound node with
  | case1 => cases h
  | case2 => cases h
  | case3 => exact Except.error.inj h ▸ .self
  | case4 function place args start stop ih =>
    rw [bind_pure_comp, map_eq_error_iff] at h
    exact .of_inOrder h ih fun _ => List.mem_cons_of_mem _
  | case5 => exact Except.error.inj h ▸ PlacedFault.IsIn.self.item List.mem_cons_self

/-- `variableNames node = .error f` only for a node in `node`. -/
theorem isIn_of_variableNames (h : variableNames node = .error f) : f.IsIn node := by
  have single : ∀ node, variableName node = .error f → f.IsIn node := by
    intro node h
    unfold variableName at h
    split at h
    · cases h
    · cases h
    · exact Except.error.inj h ▸ .self
  unfold variableNames at h
  split at h
  · exact .of_inOrder h (fun item _ => single item) fun _ => id
  · exact Except.error.inj h ▸ .self

/-- `sentence bound node = .error f` only for a node in `node`. -/
theorem isIn_of_sentence {bound : List String} (h : sentence bound node = .error f) :
    f.IsIn node := by
  fun_induction sentence bound node with
  | case1 => cases h
  | case4 bound name place start stop args plain =>
    rw [bind_pure_comp, map_eq_error_iff] at h
    exact .of_inOrder h (fun _ _ => isIn_of_term) fun _ => List.mem_cons_of_mem _
  | case5 bound name place start stop q declarations body keyword ih =>
    rcases bind_eq_error_iff.1 h with failed | ⟨xs, -, failed⟩
    · exact (isIn_of_variableNames failed).item (by simp)
    · rw [bind_pure_comp, map_eq_error_iff] at failed
      exact (ih xs failed).item (by simp)
  | case8 bound name place start stop op members some keyword ih =>
    rcases bind_eq_error_iff.1 h with failed | ⟨φs, -, failed⟩
    · exact .of_inOrder failed ih fun _ => List.mem_cons_of_mem _
    · -- The members are read, but they do not make up a connective.
      cases built : Formula.combine op φs with
      | ok => rw [built] at failed; cases failed
      | error => rw [built] at failed; exact Except.error.inj failed ▸ .self
  | case9 bound name place start stop body keyword ih =>
    rw [bind_pure_comp, map_eq_error_iff] at h
    exact (ih h).item (by simp)
  | case11 bound name place start stop left right keyword ihLeft ihRight =>
    rcases bind_eq_error_iff.1 h with failed | ⟨φ, -, failed⟩
    · exact (ihLeft failed).item (by simp)
    · rw [bind_pure_comp, map_eq_error_iff] at failed
      exact (ihRight failed).item (by simp)
  | case13 bound name place start stop left right keyword ihLeft ihRight =>
    rcases bind_eq_error_iff.1 h with failed | ⟨φ, -, failed⟩
    · exact (ihLeft failed).item (by simp)
    · rw [bind_pure_comp, map_eq_error_iff] at failed
      exact (ihRight failed).item (by simp)
  | case15 => exact Except.error.inj h ▸ PlacedFault.IsIn.self.item List.mem_cons_self
  | _ => exact Except.error.inj h ▸ .self

/-- `Document.ofNode text node = .error f` only for a node in `node`. -/
theorem isIn_of_ofNode (h : Document.ofNode text node = .error f) : f.IsIn node := by
  have sentences : ∀ node, Document.ofSentence text node = .error f → f.IsIn node := by
    intro node h
    rw [Document.ofSentence, bind_pure_comp, map_eq_error_iff] at h
    exact isIn_of_sentence h
  fun_induction Document.ofNode text node with
  | case1 head headStart items start stop wrapper ih =>
    rw [bind_pure_comp, map_eq_error_iff] at h
    obtain ⟨item, -, found⟩ := exists_of_inOrder_map_eq_error h
    exact (ih item.1 item.2 found).item
      (List.mem_cons_of_mem _ (mem_of_mem_textContents item.2))
  | case2 => cases h
  | case3 => exact Except.error.inj h ▸ .self
  | case4 head headStart items start stop wrapper ih =>
    rw [bind_pure_comp, map_eq_error_iff] at h
    obtain ⟨item, -, found⟩ := exists_of_inOrder_map_eq_error h
    exact (ih item.1 item.2 found).item (List.mem_cons_of_mem _ (List.mem_of_mem_drop item.2))
  | case5 => exact sentences _ h
  | case6 => exact sentences _ h

/-! ## Places of nodes -/

/-- `node.IsInside size`: the places of the node and of all nodes in it lie in a text of the given
size, and none of them ends before it starts. -/
def Node.IsInside (size : Nat) (node : Node) : Prop := ∀ part, node.HasPart part →
  part.start ≤ size ∧ ∀ items start stop, part = .list items start stop → stop ≤ start

section Parts

variable {own more taken : List PlacedToken} {part : Node}

/-- `node.start` is where the first of its tokens starts. -/
theorem MakeUp.start_eq (made : MakeUp own [node]) (row : tokens rest = own ++ more) :
    node.start = Text.utf8Size rest := by
  cases made with
  | symbol | quoted | list =>
    obtain ⟨_, _, start, _, _⟩ := tokens_eq_cons_iff.1 row
    exact start

/-- `startOf (tokens cs) = utf8Size cs`. -/
theorem startOf_tokens (cs : List Char) : startOf (tokens cs) = Text.utf8Size cs := by
  match found : Token.read? cs with
  | none =>
    rw [Token.read?_eq_none_iff.1 found, tokens_nil]
    rfl
  | some (t, rest) =>
    rw [tokens_of_read? found]
    rfl

/-- `stop ≤ start` for a list: it ends behind its opening parenthesis. -/
theorem MakeUp.stop_le {items : List Node} {start stop : Nat}
    (made : MakeUp own [.list items start stop]) (row : tokens rest = own ++ more)
    (skipped : skip rest = rest) : stop ≤ start := by
  have starts := made.start_eq row
  have places := @start_le_of_mem_tokens rest
  have order := @stop_le_of_mem_tokens rest
  rw [skipped] at places
  cases made with
  | @list _ _ closed _ inner ts _ _ inside others =>
    have closing : ⟨.closing, closed, stop⟩ ∈ tokens rest := by
      rw [row]
      simp
    exact ((order _ closing).trans (places _ closing)).trans_eq starts.symm

/-- A node in a text, at any depth, is what the tokens of some suffix `rest` start with. -/
theorem MakeUp.exists_rest (made : MakeUp taken nodes) (all : tokens (skip text) = taken ++ ts)
    (mem : node ∈ nodes) (has : node.HasPart part) : ∃ rest own more, rest <:+ text ∧
      skip rest = rest ∧ tokens rest = own ++ more ∧ MakeUp own [part] := by
  obtain ⟨own, ⟨earlier, later, row⟩, built⟩ := made.exists_tokens node mem part has
  have cut : tokens (skip text) = earlier ++ (own ++ (later ++ ts)) := by
    rw [all, ← row, List.append_assoc, List.append_assoc]
  obtain ⟨rest, suffix, skipped, here⟩ := exists_suffix_of_tokens_eq (skip_skip text) cut
  refine ⟨rest, own, later ++ ts, suffix.trans (skip_suffix text), skipped, here, built⟩

/-- `node.IsInside (utf8Size text)` for every node that is read from `text`. -/
theorem MakeUp.isInside (made : MakeUp taken nodes) (all : tokens (skip text) = taken ++ ts) :
    ∀ node ∈ nodes, node.IsInside (Text.utf8Size text) := by
  intro node mem part has
  obtain ⟨rest, own, more, suffix, skipped, row, built⟩ := made.exists_rest all mem has
  refine ⟨built.start_eq row ▸ utf8Size_le_of_suffix suffix, ?_⟩
  rintro items start stop rfl
  exact built.stop_le row skipped

end Parts

/-! ## What a fault is found at -/

/-- `Token.read? cs` is `.unterminated` only at a quotation mark without a partner. -/
theorem Token.of_read?_eq_unterminated (h : read? cs = some (.unterminated, rest)) :
    ∃ mark tail, cs = mark :: tail ∧ isQuotationMark mark = true ∧
      quotedText? mark tail = none := by
  match cs with
  | [] => cases h
  | c :: cs =>
    rw [read?] at h
    split_ifs at h with _ _ isMark
    · cases h
    · cases h
    · split at h
      · cases h
      · next none => exact ⟨c, cs, rfl, isMark, none⟩
    · cases h
    · cases h

/-- `Offending text fault rest`: the fault is found at the start of `rest`, a suffix of the text. -/
inductive Offending (text : List Char) : Fault → List Char → Prop
  /-- A node of the text, or a node in one. -/
  | node {fault : Fault} {nodes : List Node} {node part : Node} {own more : List PlacedToken}
      {rest : List Char} (read : Document.nodes text = .ok nodes) (mem : node ∈ nodes)
      (has : node.HasPart part) (row : tokens rest = own ++ more) (made : MakeUp own [part]) :
      Offending text fault rest
  /-- What is left behind the nodes, with no blanks or comments in front, where it starts with no
  further node. -/
  | unread {nodes : List Node} {taken : List PlacedToken} {rest : List Char}
      (all : tokens (skip text) = taken ++ tokens rest) (made : MakeUp taken nodes)
      (skipped : skip rest = rest) (left : rest ≠ [])
      (stuck : assemble [] (tokens rest) = .error .noNode) : Offending text
        (if rest.head? = some '(' then .unbalancedParenthesis else .unexpectedInput) rest
  /-- A quotation mark where a token starts, without a partner. -/
  | quotation {taken : List PlacedToken} {mark : Char} {tail : List Char}
      (all : tokens (skip text) = taken ++ tokens (mark :: tail))
      (isMark : isQuotationMark mark = true) (unclosed : quotedText? mark tail = none) :
      Offending text .unterminatedString (mark :: tail)

/-- `f.IsAt text`: the place of the fault is where an offending `rest` of the text starts. -/
def PlacedFault.IsAt (f : PlacedFault) (text : List Char) : Prop :=
  ∃ before rest, text = before ++ rest ∧ f.start = Text.utf8Size rest ∧ Offending text f.fault rest

namespace Document

/-- `Document.nodes text = .error f` only at what is left unread, or at a quotation mark. -/
theorem isAt_of_nodes (h : Document.nodes text = .error f) : f.IsAt text := by
  unfold Document.nodes at h
  split at h
  · next start failed =>
    obtain rfl := Except.error.inj h
    -- Reading stops at a token without an end, which is a quotation mark.
    obtain ⟨⟨shape, place, stop⟩, mem, rfl, rfl⟩ := mem_of_forest_eq_error failed
    obtain ⟨taken, later, all⟩ := List.append_of_mem mem
    obtain ⟨rest, suffix, -, here⟩ := exists_suffix_of_tokens_eq (skip_skip text) all
    obtain ⟨_, found, start, -, -⟩ := tokens_eq_cons_iff.1 here
    obtain ⟨mark, tail, rfl, isMark, unclosed⟩ := Token.of_read?_eq_unterminated found
    obtain ⟨before, same⟩ := suffix.trans (skip_suffix text)
    exact ⟨before, _, same.symm, start, .quotation (here ▸ all) isMark unclosed⟩
  · cases h
  · next found stop some failed =>
    -- The nodes that are read leave something behind, which decides between the two faults.
    obtain ⟨taken, ts, all, made, stuck, last⟩ := exists_of_forest_eq_ok failed
    obtain ⟨rest, suffix, skipped, rfl⟩ := exists_suffix_of_tokens_eq (skip_skip text) all
    obtain ⟨before, rfl⟩ := suffix.trans (skip_suffix text)
    have size : stop = Text.utf8Size rest := last ▸ startOf_tokens rest
    have left : rest ≠ [] := by
      rintro rfl
      exact some size
    have remaining : Text.between (before ++ rest) stop 0 = rest := by
      have behind : Text.between (before ++ (rest ++ [])) (Text.utf8Size (rest ++ []))
          (Text.utf8Size []) = rest := Text.between_of_append
      rwa [List.append_nil, ← size] at behind
    have fault : f = ⟨if rest.head? = Option.some '(' then .unbalancedParenthesis
        else .unexpectedInput, stop⟩ := by
      rw [remaining] at h
      split at h
      · next parenthesis => rw [if_pos parenthesis, Except.error.inj h]
      · next other => rw [if_neg other, Except.error.inj h]
    rw [fault]
    exact ⟨before, rest, rfl, size, .unread all made skipped left stuck⟩

/-- `ofNode text` fails only at a node of the text or at a node in one. -/
theorem isAt_of_ofNode {found : List Node} (read : Document.nodes text = .ok found)
    (h : inOrder (found.map (ofNode text)) = .error f) : f.IsAt text := by
  obtain ⟨node, mem, failed⟩ := exists_of_inOrder_map_eq_error h
  obtain ⟨part, has, place⟩ := isIn_of_ofNode failed
  have made := nodes_eq_ok_iff.1 read
  obtain ⟨rest, own, more, ⟨before, same⟩, skipped, row, built⟩ :=
    made.exists_rest (List.append_nil _).symm mem has
  exact ⟨before, rest, same.symm, place.trans (built.start_eq row), .node read mem has row built⟩

/-- `Refuses text f`: the text is refused for the fault, while its nodes are read or while they are
taken as sentences. -/
inductive Refuses (text : List Char) (f : PlacedFault) : Prop
  | nodes (failed : Document.nodes text = .error f) : Refuses text f
  | contents {found : List Node} (read : Document.nodes text = .ok found)
      (failed : inOrder (found.map (ofNode text)) = .error f) : Refuses text f

/-- `Refuses text f` gives `f.IsAt text`. -/
theorem Refuses.isAt (h : Refuses text f) : f.IsAt text := by
  cases h with
  | nodes failed => exact isAt_of_nodes failed
  | contents read failed => exact isAt_of_ofNode read failed

/-- `(read text).result = .error e` exactly if `e` is a fault that the text is refused for, with its
position. -/
theorem read_eq_error_iff {text : String} {e : SyntaxError} :
    (read text).result = .error e ↔ ∃ f, Refuses text.toList f ∧ f.inText text = e := by
  rw [result_read, bind_eq_error_iff]
  simp only [bind_pure_comp, map_eq_error_iff, mapError_eq_ok_iff, mapError_eq_error_iff]
  constructor
  · rintro (⟨f, failed, same⟩ | ⟨found, nodesRead, f, failed, same⟩)
    · exact ⟨f, .nodes failed, same⟩
    · exact ⟨f, .contents nodesRead failed, same⟩
  · rintro ⟨f, failed | ⟨nodesRead, failed⟩, same⟩
    · exact .inl ⟨f, failed, same⟩
    · exact .inr ⟨_, nodesRead, f, failed, same⟩

/-- **Places of errors.** `e.position` is that of a boundary, where an `Offending` part of the text
starts: a node, or what is left unread behind blanks and comments, or a quotation mark without a
partner. Boundaries have positions in their own order, so that no two of them share one. The places
of faults and nodes, counted from the end of the text, do not exceed its size. -/
theorem read_error_places (text : String) :
    (∀ o o', Text.IsBoundary text o → Text.IsBoundary text o' → o < o' →
      (Position.ofOffset text o).IsBefore (.ofOffset text o')) ∧
      (∀ o o', Text.IsBoundary text o → Text.IsBoundary text o' →
        Position.ofOffset text o = .ofOffset text o' → o = o') ∧
      (∀ e, (read text).result = .error e → ∃ before rest, text.toList = before ++ rest ∧
        Offending text.toList e.fault rest ∧
          e.position = .ofOffset text (Text.utf8Size before)) ∧
      (∀ f, Refuses text.toList f → f.start ≤ text.utf8ByteSize) ∧
      ∀ found stop, forest (tokens (skip text.toList)) = .ok (found, stop) →
        stop ≤ text.utf8ByteSize ∧ ∀ node ∈ found, node.IsInside text.utf8ByteSize := by
  refine ⟨fun _ _ => Position.isBefore_ofOffset, fun _ _ => Position.eq_of_ofOffset_eq, ?_, ?_, ?_⟩
  · intro e h
    obtain ⟨f, refused, rfl⟩ := read_eq_error_iff.1 h
    obtain ⟨before, rest, cut, place, offending⟩ := refused.isAt
    refine ⟨before, rest, cut, offending, ?_⟩
    -- Places are counted from the end, and positions from the start.
    have offset : text.utf8ByteSize - f.start = Text.utf8Size before := by
      rw [← Text.utf8Size_toList, cut, place, Text.utf8Size_append, Nat.add_sub_cancel]
    rw [PlacedFault.inText, offset]
  · intro f refused
    obtain ⟨before, rest, cut, place, -⟩ := refused.isAt
    rw [← Text.utf8Size_toList, cut, place, Text.utf8Size_append]
    exact Nat.le_add_left _ _
  · intro found stop h
    obtain ⟨taken, ts, all, made, -, last⟩ := exists_of_forest_eq_ok h
    rw [← Text.utf8Size_toList]
    refine ⟨?_, made.isInside all⟩
    obtain ⟨rest, suffix, -, rfl⟩ := exists_suffix_of_tokens_eq (skip_skip text.toList) all
    rw [← last, startOf_tokens]
    exact utf8Size_le_of_suffix (suffix.trans (skip_suffix _))

end Document

end ClausalForm.Clif
