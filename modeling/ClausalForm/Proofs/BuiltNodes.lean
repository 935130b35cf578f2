import ClausalForm.Clif.Document
import ClausalForm.Proofs.TokenPlaces
import ClausalForm.Proofs.WellFormed

/-! # Nodes and the tokens that they are built from

While nodes are assembled, the lists that are not closed yet wait on a stack. What comes out is what
a grammar without a stack says: a symbol and a quoted string are their tokens, and a list is what
stands between two parentheses.

* **`Clif.MakeUp`**: the nodes that a list of tokens makes up, by that grammar.
* **`Clif.makeUp_of_assemble`**, **`Clif.MakeUp.assemble_append`**: the stack follows the grammar.
* **`Clif.exists_of_forest_eq_ok`**, **`Clif.mem_of_forest_eq_error`**: where reading nodes stops,
  and where it fails.
* **`Clif.Node.BuiltFrom`**: a node whose parts come from tokens of a kind. `MakeUp.builtFrom` says
  that what holds of the tokens holds of all parts of the nodes.
* **`Clif.MakeUp.exists_tokens`**: tokens in a row make up a part of the nodes.
* **`Clif.Document.nodes_eq_ok_iff`**: the nodes of a text are those that its tokens make up.
* **`Clif.Document.read_eq_ok_iff`**: the document of a text is put together from its nodes. -/

namespace ClausalForm.Clif

variable {lists : List OpenList} {t : PlacedToken} {ts us before : List PlacedToken}
  {a : Assembled} {node : Node} {nodes : List Node}

/-! ## The grammar -/

/-- **Nodes made up by tokens.** `MakeUp ts nodes`: the tokens make up the nodes, one after the
other, and none is left. -/
inductive MakeUp : List PlacedToken → List Node → Prop
  | nil : MakeUp [] []
  | symbol {name : String} {start stop : Nat} {ts : List PlacedToken} {nodes : List Node}
      (others : MakeUp ts nodes) :
      MakeUp (⟨.symbol name, start, stop⟩ :: ts) (.symbol name start :: nodes)
  | quoted {text : String} {start stop : Nat} {ts : List PlacedToken} {nodes : List Node}
      (others : MakeUp ts nodes) :
      MakeUp (⟨.quoted text, start, stop⟩ :: ts) (.quoted text start :: nodes)
  | list {start opened closed stop : Nat} {inner ts : List PlacedToken} {items nodes : List Node}
      (inside : MakeUp inner items) (others : MakeUp ts nodes) :
      MakeUp (⟨.opening, start, opened⟩ :: (inner ++ ⟨.closing, closed, stop⟩ :: ts))
        (.list items start stop :: nodes)

/-- `MakeUp (ts ++ us) (nodes ++ others)`: tokens that follow others make up the nodes that follow
theirs. -/
theorem MakeUp.append {others : List Node} (h : MakeUp ts nodes) (more : MakeUp us others) :
    MakeUp (ts ++ us) (nodes ++ others) := by
  induction h with
  | nil => exact more
  | symbol _ ih => exact .symbol ih
  | quoted _ ih => exact .quoted ih
  | list inside _ _ ih =>
    rw [List.cons_append, List.append_assoc]
    exact .list inside ih

/-! ## The stack -/

/-- `Opens ts lists`: the tokens leave the lists open, each from its parenthesis to the last one of
its items. -/
inductive Opens : List PlacedToken → List OpenList → Prop
  | nil : Opens [] []
  | cons {before inner : List PlacedToken} {lists : List OpenList} {start opened : Nat}
      {items : List Node} (outer : Opens before lists) (inside : MakeUp inner items.reverse) :
      Opens (before ++ ⟨.opening, start, opened⟩ :: inner) (⟨start, items⟩ :: lists)

/-- `step.Follows taken`: what is there after a token is what all tokens up to it make up or leave
open. -/
def Step.Follows (taken : List PlacedToken) : Step → Prop
  | .done node => MakeUp taken [node]
  | .inside lists => Opens taken lists
  | .failed _ => True

/-- `Step.finish node lists`: a node that ends is one more item of the innermost open list. -/
theorem Step.follows_finish (opens : Opens before lists) (own : MakeUp us [node]) :
    (Step.finish node lists).Follows (before ++ us) := by
  cases opens with
  | nil => exact own
  | cons outer inside =>
    rw [List.append_assoc, List.cons_append]
    refine Opens.cons outer ?_
    rw [List.reverse_cons]
    exact inside.append own

/-- `Step.ofToken lists t`: one token more. -/
theorem Step.follows_ofToken (opens : Opens before lists) :
    (Step.ofToken lists t).Follows (before ++ [t]) := by
  obtain ⟨shape, start, stop⟩ := t
  cases shape with
  | opening => exact Opens.cons opens .nil
  | closing =>
    cases opens with
    | nil => trivial
    | cons outer inside =>
      rw [List.append_assoc, List.cons_append]
      exact follows_finish outer (.list inside .nil)
  | symbol name => exact follows_finish opens (.symbol .nil)
  | quoted text => exact follows_finish opens (.quoted .nil)
  | unterminated => trivial
  | stray => trivial

/-- A node that ends is no failure. -/
theorem Step.finish_ne_failed {cause : Unreadable} : Step.finish node lists ≠ .failed cause := by
  cases lists <;> exact nofun

/-- The token that fails for want of a partner is a quotation mark, and the failure is at its
place. -/
theorem Step.unterminated_of_failed {start : Nat}
    (h : Step.ofToken lists t = .failed (.unterminated start)) :
    t.token = .unterminated ∧ t.start = start := by
  obtain ⟨shape, place, stop⟩ := t
  cases shape with
  | opening => cases h
  | closing =>
    cases lists with
    | nil => cases h
    | cons => exact absurd h finish_ne_failed
  | symbol | quoted => exact absurd h finish_ne_failed
  | unterminated =>
    obtain rfl := Unreadable.unterminated.inj (Step.failed.inj h)
    exact ⟨rfl, rfl⟩
  | stray => cases Step.failed.inj h

/-- `assemble lists ts = .ok a`: what is assembled is made up by the tokens that are taken for
it. -/
theorem makeUp_of_assemble (opens : Opens before lists) (h : assemble lists ts = .ok a) :
    ∃ taken, ts = taken ++ a.rest ∧ MakeUp (before ++ taken) [a.node] := by
  induction ts generalizing before lists with
  | nil => simp [assemble] at h
  | cons t ts ih =>
    have step := Step.follows_ofToken (t := t) opens
    unfold assemble at h
    split at h
    · next node ended =>
      rw [ended] at step
      obtain rfl := Except.ok.inj h
      exact ⟨[t], rfl, step⟩
    · next lists' inside =>
      rw [inside] at step
      obtain ⟨taken, rfl, made⟩ := ih step h
      refine ⟨t :: taken, rfl, ?_⟩
      rwa [List.append_assoc] at made
    · cases h

/-- `assemble (⟨start, items⟩ :: lists) (ts ++ us)`: the nodes that tokens make up become items of
the innermost open list. -/
theorem MakeUp.assemble_append (h : MakeUp ts nodes) (start : Nat) (items : List Node) :
    assemble (⟨start, items⟩ :: lists) (ts ++ us) =
      assemble (⟨start, nodes.reverse ++ items⟩ :: lists) us := by
  induction h generalizing lists us start items with
  | nil => rfl
  | symbol _ ih | quoted _ ih =>
    refine (ih start _).trans ?_
    rw [List.reverse_cons, List.append_assoc]
    rfl
  | @list opening _ _ stop _ _ inner _ _ _ ihInside ih =>
    -- The items go into a list of their own, which ends up where it was opened.
    rw [List.cons_append, List.append_assoc]
    refine (ihInside opening []).trans ?_
    rw [List.append_nil, List.cons_append]
    refine (ih start (.list inner.reverse.reverse opening stop :: items)).trans ?_
    rw [List.reverse_reverse, List.reverse_cons, List.append_assoc]
    rfl

/-- `forest ts`: the first node of a forest, and the forest of the tokens after it. -/
theorem forest_of_assemble {stop : Nat} (first : assemble [] ts = .ok a)
    (others : forest a.rest = .ok (nodes, stop)) : forest ts = .ok (a.node :: nodes, stop) := by
  rw [forest]
  split
  · next b found =>
    obtain rfl := Except.ok.inj (first.symm.trans found)
    rw [others]
    rfl
  · next found => cases first.symm.trans found
  · next found => cases first.symm.trans found

/-- `forest ts = .ok (nodes, 0)`: the forest of tokens that make up nodes is that of the nodes. -/
theorem MakeUp.forest_eq (h : MakeUp ts nodes) : forest ts = .ok (nodes, 0) := by
  induction h with
  | nil =>
    rw [forest]
    rfl
  | @symbol name start stop ts _ _ ih => exact forest_of_assemble (a := ⟨_, stop, ts⟩) rfl ih
  | @quoted text start stop ts _ _ ih => exact forest_of_assemble (a := ⟨_, stop, ts⟩) rfl ih
  | @list start _ _ stop _ ts items _ inside _ _ ih =>
    refine forest_of_assemble (a := ⟨.list items start stop, stop, ts⟩) ?_ ih
    refine (inside.assemble_append start []).trans ?_
    rw [List.append_nil, assemble]
    simp only [Step.ofToken, List.reverse_reverse]
    rfl

/-- `forest ts = .ok (nodes, stop)`: reading stops in front of tokens that start with no node. Those
before them make up the nodes. -/
theorem exists_of_forest_eq_ok {stop : Nat} (h : forest ts = .ok (nodes, stop)) :
    ∃ taken rest, ts = taken ++ rest ∧ MakeUp taken nodes ∧
      assemble [] rest = .error .noNode ∧ startOf rest = stop := by
  fun_induction forest ts generalizing nodes with
  | case1 ts a found ih =>
    obtain ⟨⟨others, last⟩, more, same⟩ := bind_eq_ok_iff.1 h
    obtain ⟨rfl, rfl⟩ := Prod.mk.inj (Except.ok.inj same)
    obtain ⟨taken, all, made⟩ := makeUp_of_assemble .nil found
    obtain ⟨taken', rest, behind, made', stuck, stop⟩ := ih more
    refine ⟨taken ++ taken', rest, ?_, made.append made', stuck, stop⟩
    rw [all, behind, List.append_assoc]
  | case2 ts found =>
    obtain ⟨rfl, rfl⟩ := Prod.mk.inj (Except.ok.inj h)
    exact ⟨[], ts, rfl, .nil, found, rfl⟩
  | case3 => cases h

/-- `MakeUp ts nodes`: tokens make up the nodes of their forest if reading stops at the end of the
text, where no token is. -/
theorem makeUp_of_forest (h : forest ts = .ok (nodes, 0)) (placed : ∀ t ∈ ts, 0 < t.start) :
    MakeUp ts nodes := by
  obtain ⟨taken, rest, rfl, made, -, last⟩ := exists_of_forest_eq_ok h
  cases rest with
  | nil => rwa [List.append_nil]
  | cons t rest =>
    have here := (List.forall_mem_append.1 placed).2 t List.mem_cons_self
    exact absurd last (Nat.ne_of_gt here)

/-- A quotation mark that stops the reader is among the tokens. -/
theorem mem_of_assemble_eq_error {start : Nat}
    (h : assemble lists ts = .error (.unterminated start)) :
    ∃ t ∈ ts, t.token = .unterminated ∧ t.start = start := by
  induction ts generalizing lists with
  | nil => cases h
  | cons t ts ih =>
    rw [List.exists_mem_cons_iff]
    unfold assemble at h
    split at h
    · cases h
    · exact .inr (ih h)
    · next cause failed =>
      obtain rfl := Except.error.inj h
      exact .inl (Step.unterminated_of_failed failed)

/-- `forest ts = .error start`: the place where the reader fails is that of a quotation mark among
the tokens. -/
theorem mem_of_forest_eq_error {start : Nat} (h : forest ts = .error start) :
    ∃ t ∈ ts, t.token = .unterminated ∧ t.start = start := by
  fun_induction forest ts with
  | case1 ts a found ih =>
    obtain ⟨taken, all, -⟩ := makeUp_of_assemble .nil found
    rw [bind_pure_comp, map_eq_error_iff] at h
    obtain ⟨t, mem, here⟩ := ih h
    exact ⟨t, all ▸ List.mem_append_right _ mem, here⟩
  | case2 => cases h
  | case3 ts place found =>
    obtain rfl := Except.error.inj h
    exact mem_of_assemble_eq_error found

/-! ## What nodes inherit from their tokens -/

/-- Tokens that make up nodes are whole. -/
theorem MakeUp.isWhole (h : MakeUp ts nodes) : ∀ t ∈ ts, t.token.IsWhole := by
  induction h with
  | nil => exact List.forall_mem_nil _
  | symbol _ ih | quoted _ ih => exact List.forall_mem_cons.2 ⟨⟨nofun, nofun⟩, ih⟩
  | list _ _ ihInside ih =>
    exact List.forall_mem_cons.2 ⟨⟨nofun, nofun⟩, List.forall_mem_append.2
      ⟨ihInside, List.forall_mem_cons.2 ⟨⟨nofun, nofun⟩, ih⟩⟩⟩

/-- `node.BuiltFrom kind`: every part of the node comes from a token of the kind, a list from its
opening parenthesis. -/
inductive Node.BuiltFrom (kind : PlacedToken → Prop) : Node → Prop
  | symbol {name : String} {start stop : Nat} (token : kind ⟨.symbol name, start, stop⟩) :
      BuiltFrom kind (.symbol name start)
  | quoted {text : String} {start stop : Nat} (token : kind ⟨.quoted text, start, stop⟩) :
      BuiltFrom kind (.quoted text start)
  | list {items : List Node} {start inner stop : Nat} (opening : kind ⟨.opening, start, inner⟩)
      (each : ∀ node ∈ items, node.BuiltFrom kind) : BuiltFrom kind (.list items start stop)

/-- `node.BuiltFrom kind`: nodes are built from the tokens that make them up. -/
theorem MakeUp.builtFrom {kind : PlacedToken → Prop} (h : MakeUp ts nodes)
    (tokens : ∀ t ∈ ts, kind t) : ∀ node ∈ nodes, node.BuiltFrom kind := by
  induction h with
  | nil => exact List.forall_mem_nil _
  | symbol _ ih =>
    obtain ⟨first, others⟩ := List.forall_mem_cons.1 tokens
    exact List.forall_mem_cons.2 ⟨.symbol first, ih others⟩
  | quoted _ ih =>
    obtain ⟨first, others⟩ := List.forall_mem_cons.1 tokens
    exact List.forall_mem_cons.2 ⟨.quoted first, ih others⟩
  | list _ _ ihInside ih =>
    obtain ⟨opening, rest⟩ := List.forall_mem_cons.1 tokens
    obtain ⟨inner, closed⟩ := List.forall_mem_append.1 rest
    exact List.forall_mem_cons.2
      ⟨.list opening (ihInside inner), ih (List.forall_mem_cons.1 closed).2⟩

/-- `node.HasPart part`: the other node is the node itself or in it, at any depth. -/
inductive Node.HasPart : Node → Node → Prop
  | self {node : Node} : HasPart node node
  | item {items : List Node} {start stop : Nat} {item part : Node} (mem : item ∈ items)
      (inner : HasPart item part) : HasPart (.list items start stop) part

/-- Tokens in a row make up a part of some nodes if they do for the first one and for the others. -/
theorem exists_tokens_cons (later : us <:+ ts)
    (first : ∀ part, node.HasPart part → ∃ own, own <:+: ts ∧ MakeUp own [part])
    (others : ∀ node ∈ nodes, ∀ part, node.HasPart part → ∃ own, own <:+: us ∧ MakeUp own [part]) :
    ∀ n ∈ node :: nodes, ∀ part, n.HasPart part → ∃ own, own <:+: ts ∧ MakeUp own [part] := by
  refine List.forall_mem_cons.2 ⟨first, fun n mem part has => ?_⟩
  obtain ⟨own, among, built⟩ := others n mem part has
  exact ⟨own, among.trans later.isInfix, built⟩

/-- `own <:+: ts`: tokens in a row make up a part of the nodes. -/
theorem MakeUp.exists_tokens (h : MakeUp ts nodes) :
    ∀ node ∈ nodes, ∀ part, node.HasPart part → ∃ own, own <:+: ts ∧ MakeUp own [part] := by
  induction h with
  | nil => exact List.forall_mem_nil _
  | @symbol name start stop ts nodes _ ih =>
    refine exists_tokens_cons (List.suffix_cons _ ts) ?_ ih
    rintro _ ⟨⟩
    exact ⟨[⟨.symbol name, start, stop⟩], ⟨[], ts, rfl⟩, .symbol .nil⟩
  | @quoted text start stop ts nodes _ ih =>
    refine exists_tokens_cons (List.suffix_cons _ ts) ?_ ih
    rintro _ ⟨⟩
    exact ⟨[⟨.quoted text, start, stop⟩], ⟨[], ts, rfl⟩, .quoted .nil⟩
  | @list start opened closed stop inner ts items nodes inside _ ihInside ih =>
    -- The tokens behind the list are at the end of those in front of them.
    have later : ts <:+ inner ++ ⟨.closing, closed, stop⟩ :: ts :=
      List.suffix_append_of_suffix (List.suffix_cons _ ts)
    refine exists_tokens_cons (later.trans (List.suffix_cons _ _)) ?_ ih
    rintro part has
    cases has with
    | self =>
      exact ⟨⟨.opening, start, opened⟩ :: (inner ++ [⟨.closing, closed, stop⟩]),
        ⟨[], ts, by simp⟩, .list inside .nil⟩
    | item mem has =>
      obtain ⟨own, among, built⟩ := ihInside _ mem part has
      exact ⟨own, List.infix_cons (among.trans (List.prefix_append _ _).isInfix), built⟩

/-! ## The nodes of a text -/

/-- `Document.nodes text = .ok nodes`: the nodes of a text are made up by its tokens. -/
theorem Document.nodes_eq_ok_iff {text : List Char} :
    Document.nodes text = .ok nodes ↔ MakeUp (tokens (skip text)) nodes := by
  unfold Document.nodes
  constructor
  · intro h
    split at h
    · cases h
    · next read =>
      obtain rfl := Except.ok.inj h
      exact makeUp_of_forest read start_pos_of_mem_tokens
    · split at h <;> cases h
  · intro h
    rw [h.forest_eq]
    rfl

/-- The document of a text is put together from those of its nodes. -/
theorem Document.result_read (text : String) : (read text).result = (do
    let found ← (Document.nodes text.toList).mapError (·.inText text)
    let ds ← (inOrder (found.map (ofNode text.toList))).mapError (·.inText text)
    return concat ds) := by
  simp only [read, Recorded.result_bind, Recorded.result_ofExcept, Recorded.result_record,
    Recorded.result_pure]
  rfl

/-- `(read text).result = .ok d`: a text is read if its nodes are, and each of them. -/
theorem Document.read_eq_ok_iff {text : String} {d : Document} : (read text).result = .ok d ↔
    ∃ found ds, Document.nodes text.toList = .ok found ∧
      inOrder (found.map (ofNode text.toList)) = .ok ds ∧ concat ds = d := by
  rw [result_read]
  simp only [bind_eq_ok_iff, mapError_eq_ok_iff, pure, Except.pure, Except.ok.injEq,
    exists_and_left]

end ClausalForm.Clif
