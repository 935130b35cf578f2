import ClausalForm.Proofs.AppendedTexts
import Mathlib

/-! # Documents of texts one after the other

Two texts that are read, with a line feed between them, are read as what both hold, one after the
other. What may stand in the way is a symbol of the first text that starts like a comment without an
end: the line feed or the second text may end it.

* **`Clif.Document.read_append`**: what two texts hold, if no symbol of the first one becomes a
  comment.
* **`Clif.Document.read_append_ne`**: symbols may become comments. -/

namespace ClausalForm.Clif.Document

/-- `concat (ds ++ es)` holds the statements of `concat ds` and then those of `concat es`, and the
imports likewise. -/
theorem concat_append (ds es : List Document) :
    concat (ds ++ es) =
      ⟨(concat ds).statements ++ (concat es).statements,
        (concat ds).imports ++ (concat es).imports⟩ := by
  rw [concat, List.flatMap_append, List.flatMap_append]
  rfl

section LongerTexts

variable {before text after : List Char} {nodes : List Node} {ds : List Document}

/-- `inOrder (nodes.map (ofNode text))` is the same for the moved nodes in `text ++ after`. -/
theorem inOrder_ofNode_append (built : MakeUp (tokens (skip text)) nodes)
    (read : inOrder (nodes.map (ofNode text)) = .ok ds) :
    inOrder ((nodes.map (.shift (Text.utf8Size after))).map (ofNode (text ++ after))) = .ok ds := by
  rw [List.map_map]
  refine inOrder_map_of_ok read fun node mem d found => ?_
  exact ofNode_shift [] after (built.builtFrom standsIn_of_mem_tokens node mem) found

/-- `inOrder (nodes.map (ofNode text))` is the same in `before ++ text`. -/
theorem inOrder_ofNode_prepend (built : MakeUp (tokens (skip text)) nodes)
    (read : inOrder (nodes.map (ofNode text)) = .ok ds) :
    inOrder (nodes.map (ofNode (before ++ text))) = .ok ds := by
  refine inOrder_map_of_ok read fun node mem d found => ?_
  have moved := ofNode_shift before [] (built.builtFrom standsIn_of_mem_tokens node mem) found
  rwa [Text.utf8Size_nil, Node.shift_zero, List.append_nil] at moved

end LongerTexts

/-- **Two texts in a row.** `read (a ++ "\n" ++ b)` holds what `read a` holds and then what `read b`
holds, if the texts are `Apart`: no symbol of `a` becomes a comment. -/
theorem read_append (a b : String) (da db : Document) (first : (read a).result = .ok da)
    (second : (read b).result = .ok db) (apart : Apart a.toList b.toList) :
    (read (a ++ "\n" ++ b)).result =
      .ok ⟨da.statements ++ db.statements, da.imports ++ db.imports⟩ := by
  obtain ⟨nodes, ds, nodesRead, each, rfl⟩ := read_eq_ok_iff.1 first
  obtain ⟨nodes', ds', nodesRead', each', rfl⟩ := read_eq_ok_iff.1 second
  have built := nodes_eq_ok_iff.1 nodesRead
  have built' := nodes_eq_ok_iff.1 nodesRead'
  have text : (a ++ "\n" ++ b).toList = a.toList ++ '\n' :: b.toList := by simp
  have all := (built.shift (Text.utf8Size ('\n' :: b.toList))).append built'
  rw [← (tokens_append_iff built.isWhole).2 apart, ← text] at all
  refine read_eq_ok_iff.2 ⟨_, _, nodes_eq_ok_iff.2 all, ?_, concat_append ds ds'⟩
  rw [List.map_append, text]
  refine inOrder_append (inOrder_ofNode_append built each) ?_
  rw [← List.singleton_append, ← List.append_assoc]
  exact inOrder_ofNode_prepend built' each'

/-- The text `(P /*) // p`, in which a symbol starts like a block comment. -/
def openedComment : String := "(P /*) // p"

/-- The document with the statement `P(divtimes())`. -/
def openedCommentRead : Document where
  statements := [⟨.atom ⟨"P", [.app "divtimes" []]⟩, some "(P /*)"⟩]

/-- The text `(cl-text t (cl-imports q) (Q b))`. -/
def wrappedImport : String := "(cl-text t (cl-imports q) (Q b))"

/-- The document with the statement `Q(b())` and an import. -/
def wrappedImportRead : Document where
  statements := [⟨.atom ⟨"Q", [.app "b" []]⟩, some "(Q b)"⟩]
  imports := ["q"]

set_option maxRecDepth 10000 in
/-- `Apart` holds of a symbol that starts like a comment, before a text that does not end one. -/
theorem read_append_openedComment :
    (read openedComment).result = .ok openedCommentRead ∧
      (read wrappedImport).result = .ok wrappedImportRead ∧
      Apart openedComment.toList wrappedImport.toList ∧
      (read (openedComment ++ "\n" ++ wrappedImport)).result =
        .ok ⟨openedCommentRead.statements ++ wrappedImportRead.statements, ["q"]⟩ := by
  have first : (read openedComment).result = .ok openedCommentRead := by
    rw [result_read]
    cbv
  have second : (read wrappedImport).result = .ok wrappedImportRead := by
    rw [result_read]
    cbv
  have apart : Apart openedComment.toList wrappedImport.toList := by
    rintro rest ⟨⟨before, same⟩, -⟩ opens
    cases opens with
    | line =>
      have noReturn : '\r' ∉ openedComment.toList := by simp [openedComment]
      exact noReturn (same ▸ by simp)
    | block closed =>
      have noStar : '*' ∉ wrappedImport.toList := by simp [wrappedImport]
      exact noStar (closed.subset List.mem_cons_self)
  exact ⟨first, second, apart, read_append _ _ _ _ first second apart⟩

set_option maxRecDepth 10000 in
/-- Symbols may become comments: of `/*` and `*/` each is a sentence, and both together are a
comment. A line feed alone makes one of `//x` and a carriage return. -/
theorem read_append_ne :
    (∃ da db, (read "/*").result = .ok da ∧ (read "*/").result = .ok db ∧
      (read ("/*" ++ "\n" ++ "*/")).result ≠
        .ok ⟨da.statements ++ db.statements, da.imports ++ db.imports⟩) ∧
    ∃ da db, (read "//x\r").result = .ok da ∧ (read "").result = .ok db ∧
      (read ("//x\r" ++ "\n" ++ "")).result ≠
        .ok ⟨da.statements ++ db.statements, da.imports ++ db.imports⟩ := by
  constructor
  · have first : (read "/*").result = .ok ⟨[⟨.atom ⟨"divtimes", []⟩, some "/*"⟩], []⟩ := by
      rw [result_read]
      cbv
    have second : (read "*/").result = .ok ⟨[⟨.atom ⟨"timesdiv", []⟩, some "*/"⟩], []⟩ := by
      rw [result_read]
      cbv
    have both : (read ("/*" ++ "\n" ++ "*/")).result = .ok {} := by
      rw [result_read]
      cbv
    refine ⟨_, _, first, second, fun same => ?_⟩
    cases both.symm.trans same
  · have first : (read "//x\r").result = .ok ⟨[⟨.atom ⟨"divdivx", []⟩, some "//x"⟩], []⟩ := by
      rw [result_read]
      cbv
    have second : (read "").result = .ok {} := by
      rw [result_read]
      cbv
    have both : (read ("//x\r" ++ "\n" ++ "")).result = .ok {} := by
      rw [result_read]
      cbv
    refine ⟨_, _, first, second, fun same => ?_⟩
    cases both.symm.trans same

end ClausalForm.Clif.Document
