import ClausalForm.Text.Position
import Mathlib.Data.List.Infix

/-! # Positions in order

Going through a text, the position after each character comes behind the one before it: it is
further right, or on a later line. Offsets between characters therefore have positions in the same
order, and none of them share one.

* **`Text.IsBoundary`**: an offset between two characters.
* **`Position.IsBefore`**: the order of lines and, on one line, of columns.
* **`Position.ofOffset_boundary`**: the position of an offset between two characters.
* **`Position.isBefore_ofOffset`**, **`Position.eq_of_ofOffset_eq`**: positions are in the order of
  their offsets, so that a position has one offset. -/

namespace ClausalForm

namespace Text

variable {text : String} {before rest : List Char} {o o' : Nat}

/-- `utf8Size text.toList = text.utf8ByteSize`. -/
theorem utf8Size_toList (text : String) : utf8Size text.toList = text.utf8ByteSize := by
  rw [← text.ofList_toList, String.toList_ofList]
  induction text.toList with
  | nil => rfl
  | cons c cs ih =>
    rw [String.ofList_cons, String.utf8ByteSize_append, String.utf8ByteSize_singleton, ← ih,
      utf8Size_cons]

/-- `IsBoundary text offset`: the offset falls between two characters of the text, or on one of its
ends. -/
def IsBoundary (text : String) (offset : Nat) : Prop :=
  ∃ before rest, text.toList = before ++ rest ∧ offset = utf8Size before

/-- Of two boundaries `o < o'`, the one at `o` has less of the text in front of it. -/
theorem exists_append_of_isBoundary (first : IsBoundary text o) (second : IsBoundary text o')
    (lt : o < o') : ∃ before more rest, more ≠ [] ∧ text.toList = before ++ more ++ rest ∧
      o = utf8Size before ∧ o' = utf8Size (before ++ more) := by
  obtain ⟨before, rest, cut, rfl⟩ := first
  obtain ⟨before', rest', cut', rfl⟩ := second
  have left : before <+: text.toList := ⟨rest, cut.symm⟩
  have right : before' <+: text.toList := ⟨rest', cut'.symm⟩
  rcases List.prefix_or_prefix_of_prefix left right with ⟨more, rfl⟩ | ⟨more, rfl⟩
  · refine ⟨before, more, rest', ?_, cut', rfl, rfl⟩
    rintro rfl
    rw [List.append_nil] at lt
    exact Nat.lt_irrefl _ lt
  · -- The larger offset would have less in front of it.
    rw [utf8Size_append] at lt
    omega

end Text

namespace Position

variable {p q r : Position} {text : String} {before rest : List Char} {o o' : Nat}

/-! ## The order of positions -/

/-- `p.IsBefore q`: `p` is on an earlier line, or further left on the same line. -/
def IsBefore (p q : Position) : Prop :=
  p.line < q.line ∨ p.line = q.line ∧ p.column < q.column

/-- `¬ p.IsBefore p`. -/
theorem IsBefore.irrefl (p : Position) : ¬ p.IsBefore p := by
  rintro (line | ⟨-, column⟩)
  · exact Nat.lt_irrefl _ line
  · exact Nat.lt_irrefl _ column

/-- `p.IsBefore q` and `q.IsBefore r` give `p.IsBefore r`. -/
theorem IsBefore.trans (first : p.IsBefore q) (second : q.IsBefore r) : p.IsBefore r := by
  unfold IsBefore at *
  omega

/-! ## Going through a text -/

/-- `p.IsBefore (p.advance c)`. -/
theorem isBefore_advance (p : Position) (c : Char) : p.IsBefore (p.advance c) := by
  rw [advance]
  split
  · exact .inl (Nat.lt_succ_self _)
  · exact .inr ⟨rfl, Nat.lt_succ_self _⟩

/-- `p.IsBefore (cs.foldl advance p)` for `cs ≠ []`. -/
theorem isBefore_foldl_advance (p : Position) {cs : List Char} (some : cs ≠ []) :
    p.IsBefore (cs.foldl advance p) := by
  induction cs generalizing p with
  | nil => exact absurd rfl some
  | cons c cs ih =>
    rw [List.foldl_cons]
    by_cases last : cs = []
    · rw [last, List.foldl_nil]
      exact p.isBefore_advance c
    · exact (p.isBefore_advance c).trans (ih (p.advance c) last)

/-- `ofOffset text (utf8Size before) = after before`: a boundary has the position that the text in
front of it leads to. -/
theorem ofOffset_boundary (cut : text.toList = before ++ rest) :
    ofOffset text (Text.utf8Size before) = after before := by
  rw [ofOffset, cut, Text.splitBytes?_append]
  rfl

/-- `ofOffset text` keeps the order of boundaries. -/
theorem isBefore_ofOffset (first : Text.IsBoundary text o) (second : Text.IsBoundary text o')
    (lt : o < o') : (ofOffset text o).IsBefore (ofOffset text o') := by
  obtain ⟨before, more, rest, some, cut, rfl, rfl⟩ :=
    Text.exists_append_of_isBoundary first second lt
  have start : text.toList = before ++ (more ++ rest) := by rw [cut, List.append_assoc]
  rw [ofOffset_boundary start, ofOffset_boundary cut, after, after, List.foldl_append]
  exact isBefore_foldl_advance _ some

/-- `ofOffset text o = ofOffset text o'` gives `o = o'` for two boundaries. -/
theorem eq_of_ofOffset_eq (first : Text.IsBoundary text o) (second : Text.IsBoundary text o')
    (same : ofOffset text o = ofOffset text o') : o = o' := by
  rcases Nat.lt_trichotomy o o' with lt | eq | gt
  · exact absurd (same ▸ isBefore_ofOffset first second lt) (IsBefore.irrefl _)
  · exact eq
  · exact absurd (same ▸ isBefore_ofOffset second first gt) (IsBefore.irrefl _)

end Position

end ClausalForm
