import ClausalForm.Clif.Sentence
import ClausalForm.Statement

/-! # Documents

A text holds sentences, imports, and texts and comments that wrap them. Wrappers are taken off,
imports recorded, and each sentence becomes a statement that keeps the text it was read from.

* **`Document`**: the statements and imports of a text.
* **`Document.ofNode`**: those of one node.
* **`Document.read`**: those of a whole text. -/

namespace ClausalForm.Clif

/-- What is read from a text: its statements in order, and the texts that it imports. -/
structure Document where
  statements : List Statement := []
  /-- The names of the imported texts. -/
  imports : List String := []
deriving Repr, BEq, Inhabited

/-- The nodes that are no sentences: texts with contents, imports and comments. -/
inductive Wrapper where
  | text
  | imports
  | comment
deriving Repr, DecidableEq

/-- `Wrapper.ofName? head`: the wrapper that a symbol starts, in either spelling. -/
def Wrapper.ofName? : String → Option Wrapper
  | "cl-text" => some .text
  | "cl:text" => some .text
  | "cl-imports" => some .imports
  | "cl:imports" => some .imports
  | "cl-comment" => some .comment
  | "cl:comment" => some .comment
  | _ => none

/-- `textContents items`: the contents of a text, which are all of its items after its name, if it
has one. -/
def textContents : List Node → List Node
  | [] => []
  | .list items start stop :: rest => .list items start stop :: rest
  | _ :: rest => rest

/-- `textContents items` has nothing that is not among the items. -/
theorem mem_of_mem_textContents {node : Node} {items : List Node}
    (h : node ∈ textContents items) : node ∈ items := by
  unfold textContents at h
  split at h
  · exact h
  · exact h
  · exact List.mem_cons_of_mem _ h

namespace Document

/-- `concat ds`: the statements and imports of several documents, one after the other. -/
def concat (ds : List Document) : Document :=
  ⟨ds.flatMap statements, ds.flatMap imports⟩

/-- `ofSentence text node`: the document of one sentence, with its `Node.source` as the text of the
statement. -/
def ofSentence (text : List Char) (node : Node) : Except PlacedFault Document := do
  let φ ← sentence [] node
  return { statements := [⟨φ, some (node.source text)⟩] }

/-- `ofNode text node`: the document that a node stands for. A text or comment stands for what it
encloses. -/
def ofNode (text : List Char) : Node → Except PlacedFault Document
  | .list (.symbol head headStart :: items) start stop =>
    match Wrapper.ofName? head with
    | some .text => do
      let ds ← inOrder ((textContents items).attach.map fun ⟨item, _⟩ => ofNode text item)
      return concat ds
    | some .imports =>
      match items.head?.bind Node.name? with
      | some name => .ok { imports := [name] }
      | none => .error ⟨.importWithoutName, start⟩
    | some .comment => do
      let ds ← inOrder ((items.drop 1).attach.map fun ⟨item, _⟩ => ofNode text item)
      return concat ds
    | none => ofSentence text (.list (.symbol head headStart :: items) start stop)
  | node => ofSentence text node
decreasing_by
  · have := List.sizeOf_lt_of_mem (mem_of_mem_textContents ‹_ ∈ textContents items›)
    simp
    omega
  · have := List.sizeOf_lt_of_mem (List.mem_of_mem_drop ‹_ ∈ items.drop 1›)
    simp
    omega

/-- `nodes text`: the nodes of a whole text. Where no further node can be read, the error says
whether a parenthesis is open there. -/
def nodes (text : List Char) : Except PlacedFault (List Node) :=
  match forest (tokens (skip text)) with
  | .error start => .error ⟨.unterminatedString, start⟩
  | .ok (nodes, 0) => .ok nodes
  | .ok (_, stop) =>
    if (Text.between text stop 0).head? = some '(' then .error ⟨.unbalancedParenthesis, stop⟩
    else .error ⟨.unexpectedInput, stop⟩

/-- **Reading a text.** `read text`: the document that a text stands for, with a message that counts
its parts. -/
def read (text : String) : Recorded SyntaxError Document := do
  let nodes ← .ofExcept ((nodes text.toList).mapError (·.inText text))
  let ds ← .ofExcept ((inOrder (nodes.map (ofNode text.toList))).mapError (·.inText text))
  let document := concat ds
  .record .debug <|
    "Read " ++ toString document.statements.length ++ " axiom(s) and " ++
      toString document.imports.length ++ " import(s)"
  return document

end Document

end ClausalForm.Clif
