import ClausalForm.Proofs.SentenceGrammar
import ClausalForm.Proofs.Wrappers

/-! # Nodes of a text that is part of a longer one

Places count from the end of a text. Where more text follows, the places of a node move by its size,
and they stay where they are when text is put in front. The node is the same otherwise: it is read
as the same sentence and its source is the same part of the text.

* **`Clif.MakeUp.relocate`**: tokens that are moved make up the nodes that are moved.
* **`Clif.Reads.relocate`**: a node that is moved is read as the same sentence.
* **`Clif.Document.ofNode_shift`**: a node that is moved stands for the same document, if its source
  can be found there. -/

namespace ClausalForm

/-! ## Parts of a longer text -/

namespace Text

variable {cs ds before after : List Char} {n start stop : Nat}

/-- `splitBytes? n cs = some (before, after)` exactly if these make up `cs` and `before` has `n`
bytes. -/
theorem splitBytes?_eq_some_iff :
    splitBytes? n cs = some (before, after) ↔ before ++ after = cs ∧ utf8Size before = n := by
  constructor
  · intro h
    fun_induction splitBytes? n cs generalizing before with
    | case1 cs =>
      obtain ⟨rfl, rfl⟩ := Prod.mk.inj (Option.some.inj h)
      exact ⟨rfl, rfl⟩
    | case2 => cases h
    | case3 n c cs fits ih =>
      obtain ⟨⟨front, back⟩, found, same⟩ := Option.map_eq_some_iff.1 h
      obtain ⟨rfl, rfl⟩ := Prod.mk.inj same
      obtain ⟨rfl, size⟩ := ih found
      refine ⟨rfl, ?_⟩
      rw [utf8Size_cons, size]
      omega
    | case4 => cases h
  · rintro ⟨rfl, rfl⟩
    exact splitBytes?_append before after

/-- `splitBytes? n (cs ++ ds)` cuts `cs` alone for `n ≤ utf8Size cs`. -/
theorem splitBytes?_append_right (inside : n ≤ utf8Size cs) :
    splitBytes? n (cs ++ ds) =
      (splitBytes? n cs).map fun (before, after) => (before, after ++ ds) := by
  fun_induction splitBytes? n cs with
  | case1 cs => rw [splitBytes?]; rfl
  | case2 n => exact absurd inside (Nat.not_succ_le_zero n)
  | case3 n c cs fits ih =>
    rw [utf8Size_cons] at inside
    rw [List.cons_append, splitBytes?, if_pos fits, ih (by omega), Option.map_map, Option.map_map]
    rfl
  | case4 n c cs wide => rw [List.cons_append, splitBytes?, if_neg wide]; rfl

/-- `splitBytes? (c.utf8Size + n) (c :: cs)` cuts `cs` behind `n` bytes. -/
theorem splitBytes?_cons {c : Char} : splitBytes? (c.utf8Size + n) (c :: cs) =
    (splitBytes? n cs).map fun (before, after) => (c :: before, after) := by
  obtain ⟨m, size⟩ := Nat.exists_eq_succ_of_ne_zero (Nat.ne_of_gt c.utf8Size_pos)
  rw [size, Nat.succ_add, splitBytes?, if_pos (by omega), show m + n + 1 - c.utf8Size = n by omega]

/-- `splitBytes? (utf8Size cs + n) (cs ++ ds)` cuts `ds` behind `n` bytes. -/
theorem splitBytes?_append_left : splitBytes? (utf8Size cs + n) (cs ++ ds) =
    (splitBytes? n ds).map fun (before, after) => (cs ++ before, after) := by
  induction cs with
  | nil => simp
  | cons c cs ih =>
    rw [utf8Size_cons, Nat.add_assoc, List.cons_append, splitBytes?_cons, ih, Option.map_map]
    rfl

/-- `sliceAt` finds a part of a text by the place where it starts and its size. -/
theorem sliceAt_of_append (before part after : List Char) :
    sliceAt (before ++ (part ++ after)) (utf8Size (part ++ after)) (utf8Size part) = part := by
  have front : utf8Size (before ++ (part ++ after)) - utf8Size (part ++ after) =
      utf8Size before := by
    rw [utf8Size_append]
    omega
  rw [sliceAt, front, splitBytes?_append]
  show ((splitBytes? (utf8Size part) (part ++ after)).map Prod.fst).getD [] = part
  rw [splitBytes?_append]
  rfl

/-- `between` finds a part of a text by the places where it starts and ends. -/
theorem between_of_append {part : List Char} :
    between (before ++ (part ++ after)) (utf8Size (part ++ after)) (utf8Size after) = part := by
  have size : utf8Size (part ++ after) - utf8Size after = utf8Size part := by
    rw [utf8Size_append]
    omega
  rw [between, size, sliceAt_of_append]

/-- `between text (utf8Size text) 0 = text`: all of a text. -/
theorem between_self {text : List Char} : between text (utf8Size text) 0 = text := by
  have whole : between ([] ++ (text ++ [])) (utf8Size (text ++ [])) (utf8Size []) = text :=
    between_of_append
  rwa [List.append_nil, List.nil_append, utf8Size_nil] at whole

/-- `between` finds the same part in a longer text, where both places move by the size of what
follows. -/
theorem between_append {text : List Char} (inside : start ≤ utf8Size text) :
    between (before ++ (text ++ after)) (start + utf8Size after) (stop + utf8Size after) =
      between text start stop := by
  have size : utf8Size (before ++ (text ++ after)) - (start + utf8Size after) =
      utf8Size before + (utf8Size text - start) := by
    rw [utf8Size_append, utf8Size_append]
    omega
  unfold between sliceAt
  rw [size, splitBytes?_append_left, splitBytes?_append_right (Nat.sub_le _ _), Option.map_map]
  cases cut : splitBytes? (utf8Size text - start) text with
  | none => rfl
  | some parts =>
    obtain ⟨front, back⟩ := parts
    obtain ⟨rfl, sizeFront⟩ := splitBytes?_eq_some_iff.1 cut
    have fits : start - stop ≤ utf8Size back := by
      rw [utf8Size_append] at inside sizeFront
      omega
    show ((splitBytes? _ (back ++ after)).map Prod.fst).getD [] = _
    rw [Nat.add_sub_add_right, splitBytes?_append_right fits, Option.map_map]
    rfl

end Text

namespace Clif

variable {f : Nat → Nat} {ts : List PlacedToken} {node : Node} {nodes : List Node}

/-! ## Moved tokens -/

/-- `t.relocate f`: the token with `f` applied to its places. -/
def PlacedToken.relocate (f : Nat → Nat) (t : PlacedToken) : PlacedToken :=
  ⟨t.token, f t.start, f t.stop⟩

/-- `t.shift n`: the token, `n` bytes further away from the end. -/
def PlacedToken.shift (n : Nat) : PlacedToken → PlacedToken := relocate (· + n)

/-- `node.relocate f`: the node with `f` applied to all places in it. -/
def Node.relocate (f : Nat → Nat) : Node → Node
  | symbol name start => symbol name (f start)
  | quoted text start => quoted text (f start)
  | list items start stop => list (items.map (relocate f)) (f start) (f stop)

/-- `node.shift n`: the node, `n` bytes further away from the end. -/
def Node.shift (n : Nat) : Node → Node := relocate (· + n)

/-- `relocate f` of a list with a symbol in front is such a list. -/
theorem Node.relocate_headed {head : String} {place start stop : Nat} {items : List Node} :
    (list (symbol head place :: items) start stop).relocate f =
      list (symbol head (f place) :: items.map (relocate f)) (f start) (f stop) := by
  rw [relocate, List.map_cons, relocate]

/-- `MakeUp ts nodes` also holds of both after `relocate f`. -/
theorem MakeUp.relocate (h : MakeUp ts nodes) :
    MakeUp (ts.map (.relocate f)) (nodes.map (.relocate f)) := by
  induction h with
  | nil => exact .nil
  | symbol _ ih =>
    rw [List.map_cons, List.map_cons, Node.relocate]
    exact .symbol ih
  | quoted _ ih =>
    rw [List.map_cons, List.map_cons, Node.relocate]
    exact .quoted ih
  | list _ _ ihInside ih =>
    rw [List.map_cons, List.map_append, List.map_cons, List.map_cons, Node.relocate]
    exact .list ihInside ih

/-- `MakeUp ts nodes` also holds of both after `shift n`. -/
theorem MakeUp.shift (n : Nat) (h : MakeUp ts nodes) :
    MakeUp (ts.map (.shift n)) (nodes.map (.shift n)) :=
  h.relocate

/-! ## Reading nodes that are moved -/

/-- `node.relocate id = node`. -/
theorem Node.relocate_id (node : Node) : node.relocate id = node := by
  fun_induction Node.relocate id node with
  | case1 | case2 => rfl
  | case3 items start stop ih => rw [List.map_congr_left ih, List.map_id', id_eq, id_eq]

/-- `node.shift 0 = node`. -/
theorem Node.shift_zero (node : Node) : node.shift 0 = node := node.relocate_id

/-- `(node.relocate f).relocate g = node.relocate (g ∘ f)`. -/
theorem Node.relocate_relocate {f g : Nat → Nat} (node : Node) :
    (node.relocate f).relocate g = node.relocate (g ∘ f) := by
  fun_induction Node.relocate f node with
  | case1 | case2 => simp only [relocate, Function.comp_apply]
  | case3 items start stop ih =>
    have inner : items.map (relocate g ∘ relocate f) = items.map (relocate (g ∘ f)) :=
      List.map_congr_left ih
    rw [relocate, relocate, List.map_map, inner]
    rfl

/-- `(node.shift n).relocate (· - n) = node`. -/
theorem Node.relocate_shift (n : Nat) (node : Node) : (node.shift n).relocate (· - n) = node := by
  have back : (· - n) ∘ (· + n) = id := funext fun place => Nat.add_sub_cancel place n
  rw [shift, relocate_relocate, back, relocate_id]

/-- `(node.relocate f).name? = node.name?`. -/
@[simp] theorem Node.name?_relocate : (node.relocate f).name? = node.name? := by
  cases node <;> rw [relocate] <;> rfl

/-- `(node.relocate f).declared? = node.declared?`. -/
@[simp] theorem Node.declared?_relocate : (node.relocate f).declared? = node.declared? := by
  match node with
  | .symbol .. | .quoted .. | .list [] .. | .list [_] .. | .list (_ :: _ :: _ :: _) .. =>
    simp [relocate, declared?]
  | .list [.symbol .., _] .. | .list [.quoted .., _] .. | .list [.list .., _] .. =>
    simp [relocate, declared?]

/-- `ReadsTerm bound node t` does not depend on the places in `node`. -/
theorem ReadsTerm.relocate {bound : List String} {t : Term} (h : ReadsTerm bound node t) :
    ReadsTerm bound (node.relocate f) t := by
  induction h with
  | «variable» isBound =>
    rw [Node.relocate]
    exact .variable isBound
  | constant isFree =>
    rw [Node.relocate]
    exact .constant isFree
  | quoted =>
    rw [Node.relocate]
    exact .quoted
  | application length _ ih =>
    rw [Node.relocate_headed]
    refine .application (by rwa [List.length_map]) ?_
    rw [List.zip_map_left]
    exact List.forall_mem_map.2 ih

/-- `variableNames node = .ok xs` does not depend on the places in `node`. -/
theorem variableNames_relocate {xs : List String} (h : variableNames node = .ok xs) :
    variableNames (node.relocate f) = .ok xs := by
  obtain ⟨declarations, first, last, rfl, some, each⟩ := variableNames_eq_ok_iff.1 h
  rw [Node.relocate]
  refine variableNames_eq_ok_iff.2 ⟨_, _, _, rfl, ?_, ?_⟩
  · rwa [ne_eq, List.map_eq_nil_iff]
  · simpa only [List.forall₂_map_left_iff, Node.declared?_relocate] using each

/-- `Reads bound node φ` does not depend on the places in `node`. -/
theorem Reads.relocate {bound : List String} {φ : Formula} (h : Reads bound node φ) :
    Reads bound (node.relocate f) φ := by
  -- By rule induction: no rule looks at a place.
  induction h with
  | proposition =>
    rw [Node.relocate]
    exact .proposition
  | predicate plain args =>
    rw [Node.relocate_headed]
    refine .predicate plain (List.forall₂_map_left_iff.2 ?_)
    exact args.imp fun _ _ read => read.relocate
  | quantifier keyword declared _ ih =>
    rw [Node.relocate_headed]
    exact .quantifier keyword (variableNames_relocate declared) ih
  | connective keyword length members built ih =>
    rw [Node.relocate_headed]
    refine .connective keyword (by rwa [List.length_map]) ?_ built
    rw [List.zip_map_left]
    exact List.forall_mem_map.2 ih
  | negation keyword _ ih =>
    rw [Node.relocate_headed]
    exact .negation keyword ih
  | implication keyword _ _ ihLeft ihRight =>
    rw [Node.relocate_headed]
    exact .implication keyword ihLeft ihRight
  | equivalence keyword _ _ ihLeft ihRight =>
    rw [Node.relocate_headed]
    exact .equivalence keyword ihLeft ihRight

/-! ## Nodes without wrappers -/

/-- `node.relocate f` is a list with a symbol in front only if `node` is one. -/
theorem Node.exists_of_relocate_eq {place start stop : Nat} {head : String} {items : List Node}
    (h : node.relocate f = .list (.symbol head place :: items) start stop) :
    ∃ place items start stop, node = .list (.symbol head place :: items) start stop := by
  match node with
  | .symbol .. | .quoted .. | .list [] .. | .list (.quoted .. :: _) .. | .list (.list .. :: _) .. =>
    simp [relocate] at h
  | .list (.symbol .. :: _) .. =>
    simp only [relocate, List.map_cons, list.injEq, List.cons.injEq, symbol.injEq] at h
    obtain ⟨⟨⟨rfl, -⟩, -⟩, -⟩ := h
    exact ⟨_, _, _, _, rfl⟩

/-- `node.IsPlain` does not depend on the places in `node`. -/
theorem Node.IsPlain.relocate (plain : node.IsPlain) : (node.relocate f).IsPlain := by
  intro head place items start stop same
  obtain ⟨_, _, _, _, rfl⟩ := exists_of_relocate_eq same
  exact plain _ _ _ _ _ rfl

/-! ## Documents -/

namespace Document

variable {text : List Char} {d : Document} (before after : List Char)

/-- `(Node.symbol name start).source text = name`: the part of the text that a symbol was read from
is its name. -/
theorem source_symbol {name : String} {start : Nat} {front back : List Char}
    (spelled : text = front ++ (name.toList ++ back))
    (place : start = Text.utf8Size (name.toList ++ back)) :
    (Node.symbol name start).source text = name := by
  rw [Node.source, spelled, place, Text.sliceAt_of_append, String.ofList_toList]

/-- `node.source text`: the source of a node is the same in a longer text. -/
theorem source_shift (inside : node.BuiltFrom (PlacedToken.StandsIn text)) :
    (node.shift (Text.utf8Size after)).source (before ++ (text ++ after)) = node.source text := by
  cases inside with
  | @symbol name start stop token =>
    obtain ⟨front, back, spelled, rfl⟩ := token.spelled _ rfl
    have longer :
        before ++ (text ++ after) = (before ++ front) ++ (name.toList ++ (back ++ after)) := by
      rw [spelled, List.append_assoc, List.append_assoc, List.append_assoc]
    rw [source_symbol spelled rfl, Node.shift, Node.relocate]
    refine source_symbol longer ?_
    rw [← Text.utf8Size_append, List.append_assoc]
  | quoted =>
    rw [Node.shift, Node.relocate]
    rfl
  | list opening =>
    rw [Node.shift, Node.relocate, Node.source, Node.source, Text.between_append opening.start_le]

/-- `ofSentence (before ++ (text ++ after)) (node.shift n) = ofSentence text node`, as far as they
succeed, where `n` is the size of `after`. -/
theorem ofSentence_shift_iff (inside : node.BuiltFrom (PlacedToken.StandsIn text)) :
    ofSentence (before ++ (text ++ after)) (node.shift (Text.utf8Size after)) = .ok d ↔
      ofSentence text node = .ok d := by
  rw [ofSentence, ofSentence, source_shift before after inside, bind_eq_ok_iff, bind_eq_ok_iff]
  refine exists_congr fun φ => and_congr_left' ⟨fun read => ?_, fun read => ?_⟩
  · have back := (reads_of_sentence read).relocate (f := (· - Text.utf8Size after))
    rw [Node.relocate_shift] at back
    exact sentence_of_reads back
  · exact sentence_of_reads (reads_of_sentence read).relocate

/-- `textContents (items.map (relocate f)) = (textContents items).map (relocate f)`. -/
theorem textContents_relocate (items : List Node) :
    textContents (items.map (.relocate f)) = (textContents items).map (.relocate f) := by
  match items with
  | [] => rfl
  | .symbol .. :: _ | .quoted .. :: _ | .list .. :: _ =>
    rw [List.map_cons, Node.relocate]
    simp [textContents, Node.relocate]

/-- `ofNode` of a node without a wrapper is the same in the longer text
`before ++ (text ++ after)`. -/
theorem ofNode_shift_of_isPlain (plain : node.IsPlain)
    (inside : node.BuiltFrom (PlacedToken.StandsIn text))
    (h : ofNode text node = .ok d) :
    ofNode (before ++ (text ++ after)) (node.shift (Text.utf8Size after)) = .ok d := by
  rw [ofNode_of_isPlain plain] at h
  rw [Node.shift, ofNode_of_isPlain plain.relocate]
  exact (ofSentence_shift_iff before after inside).2 h

/-- **A node in a longer text.** `ofNode text node = .ok d` also holds in
`before ++ (text ++ after)`, of the node that has been moved by `after`. -/
theorem ofNode_shift (inside : node.BuiltFrom (PlacedToken.StandsIn text))
    (h : ofNode text node = .ok d) :
    ofNode (before ++ (text ++ after)) (node.shift (Text.utf8Size after)) = .ok d := by
  induction inside generalizing d with
  | symbol token =>
    exact ofNode_shift_of_isPlain before after (by simp [Node.IsPlain]) (.symbol token) h
  | quoted token =>
    exact ofNode_shift_of_isPlain before after (by simp [Node.IsPlain]) (.quoted token) h
  | @list items start _ stop opening each ih =>
    -- Only a list with a symbol in front can be a wrapper.
    match items with
    | [] | .quoted .. :: _ | .list .. :: _ =>
      exact ofNode_shift_of_isPlain before after (by simp [Node.IsPlain]) (.list opening each) h
    | .symbol head place :: items =>
      cases wrapper : Wrapper.ofName? head with
      | none =>
        refine ofNode_shift_of_isPlain before after ?_ (.list opening each) h
        rintro _ _ _ _ _ ⟨⟩
        exact wrapper
      | some kind =>
        -- The head is the same after it is moved, and so is the wrapper. The items are moved one by
        -- one.
        rw [Node.shift, Node.relocate_headed]
        cases kind with
        | text =>
          rw [ofNode_text wrapper] at h
          rw [ofNode_text wrapper, textContents_relocate, List.map_map]
          obtain ⟨ds, read, same⟩ := map_eq_ok_iff.1 h
          refine map_eq_ok_iff.2 ⟨ds, inOrder_map_of_ok read fun item mem d found => ?_, same⟩
          exact ih item (List.mem_cons_of_mem _ (mem_of_mem_textContents mem)) found
        | imports =>
          obtain ⟨name, named, same⟩ := (ofNode_imports_eq_ok_iff wrapper).1 h
          refine (ofNode_imports_eq_ok_iff wrapper).2 ⟨name, ?_, same⟩
          simpa [List.head?_map, Option.bind_map, Function.comp_def] using named
        | comment =>
          rw [ofNode_comment wrapper] at h
          rw [ofNode_comment wrapper, ← List.map_drop, List.map_map]
          obtain ⟨ds, read, same⟩ := map_eq_ok_iff.1 h
          refine map_eq_ok_iff.2 ⟨ds, inOrder_map_of_ok read fun item mem d found => ?_, same⟩
          exact ih item (List.mem_cons_of_mem _ (List.mem_of_mem_drop mem)) found

end Document

end Clif

end ClausalForm
