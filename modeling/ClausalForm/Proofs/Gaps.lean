import ClausalForm.Proofs.Lexemes

/-! # Gaps between tokens

What may stand between tokens: blanks and comments, one after the other. They are skipped, and
nothing else is.

* **`Clif.IsGap`**: blanks and comments in front of a text.
* **`Clif.IsGap.skip_append`**, **`Clif.exists_gap`**: just these are skipped.
* **`Clif.skip_skip`**: nothing to skip is left after skipping.
* **`Clif.skip_symbol`**: nothing is skipped in front of a symbol, unless it starts like a
  comment. -/

namespace ClausalForm.Clif

variable {mark : Char} {cs ds gap name rest : List Char}

/-! ## Blanks and comments -/

/-- `skip cs ≠ cs` if a shorter text is skipped like `cs`. -/
theorem skip_ne_self (same : skip cs = skip ds) (shorter : ds.length < cs.length) :
    skip cs ≠ cs := by
  intro fixed
  have := length_skip ds
  rw [← same, fixed] at this
  omega

/-- `skip ("//" ++ cs) = skip ds` where the comment ends in front of `ds`. -/
theorem skip_line (h : afterLineComment? cs = some ds) : skip ('/' :: '/' :: cs) = skip ds := by
  rw [skip]
  split
  · next es found => rw [Option.some.inj (h.symm.trans found)]
  · next found => cases h.symm.trans found

/-- `skip` leaves `//` as it is exactly if the line comment that it opens has no end. -/
theorem skip_line_eq_self_iff :
    skip ('/' :: '/' :: cs) = '/' :: '/' :: cs ↔ afterLineComment? cs = none := by
  constructor
  · intro fixed
    by_contra ended
    obtain ⟨ds, found⟩ := Option.ne_none_iff_exists'.1 ended
    have shorter := length_afterLineComment? found
    refine skip_ne_self (skip_line found) ?_ fixed
    rw [List.length_cons, List.length_cons]
    omega
  · intro none
    rw [skip]
    split
    · next es found => cases none.symm.trans found
    · rfl

/-- `skip ("/*" ++ cs) = skip ds` where the comment ends in front of `ds`. -/
theorem skip_block (h : afterBlockComment? cs = some ds) : skip ('/' :: '*' :: cs) = skip ds := by
  rw [skip]
  split
  · next es found => rw [Option.some.inj (h.symm.trans found)]
  · next found => cases h.symm.trans found

/-- `skip` leaves `/*` as it is exactly if the block comment that it opens has no end. -/
theorem skip_block_eq_self_iff :
    skip ('/' :: '*' :: cs) = '/' :: '*' :: cs ↔ afterBlockComment? cs = none := by
  constructor
  · intro fixed
    by_contra ended
    obtain ⟨ds, found⟩ := Option.ne_none_iff_exists'.1 ended
    have shorter := length_afterBlockComment? found
    refine skip_ne_self (skip_block found) ?_ fixed
    rw [List.length_cons, List.length_cons]
    omega
  · intro none
    rw [skip]
    split
    · next es found => cases none.symm.trans found
    · rfl

/-- `skip (c :: cs) = skip cs` for a blank `c`. -/
theorem skip_blank {c : Char} (blank : Text.isBlank c = true) : skip (c :: cs) = skip cs := by
  rw [skip, if_pos blank]
  · rintro _ rfl
    cases blank
  · rintro _ rfl
    cases blank

/-- `skip (c :: cs) = c :: cs` only if `c` is no blank. -/
theorem not_isBlank_of_skip_eq_self {c : Char} (fixed : skip (c :: cs) = c :: cs) :
    ¬ Text.isBlank c = true :=
  fun blank => skip_ne_self (skip_blank blank) (Nat.lt_succ_self _) fixed

/-- `skip (c :: cs) = c :: cs` if `c` is no blank and no comment starts there. -/
theorem skip_cons_eq_self {c : Char} (visible : ¬ Text.isBlank c = true)
    (other : c = '/' → ∀ ds, cs ≠ '/' :: ds ∧ cs ≠ '*' :: ds) : skip (c :: cs) = c :: cs := by
  rw [skip, if_neg visible]
  · exact fun ds slash => (other slash ds).1
  · exact fun ds slash => (other slash ds).2

/-- `skip (skip cs) = skip cs`. -/
theorem skip_skip (cs : List Char) : skip (skip cs) = skip cs := by
  fun_induction skip cs with
  | case1 => rw [skip]
  | case2 cs ds found ih => exact ih
  | case3 cs found => exact skip_line_eq_self_iff.2 found
  | case4 cs ds found ih => exact ih
  | case5 cs found => exact skip_block_eq_self_iff.2 found
  | case6 c cs _ _ _ ih => exact ih
  | case7 c cs line block other =>
    exact skip_cons_eq_self other fun slash ds => ⟨line ds slash, block ds slash⟩

/-! ## Gaps -/

/-- Blanks and comments in front of the text `rest`. -/
inductive IsGap (rest : List Char) : List Char → Prop
  | nil : IsGap rest []
  | blank {c : Char} {gap : List Char} (isBlank : Text.isBlank c = true) (more : IsGap rest gap) :
      IsGap rest (c :: gap)
  | line {line gap : List Char} (isLine : IsLine line) (ends : EndsLine (gap ++ rest))
      (more : IsGap rest gap) : IsGap rest ('/' :: '/' :: (line ++ gap))
  | block {body gap : List Char} (closed : ¬ ['*', '/'] <:+: body) (more : IsGap rest gap) :
      IsGap rest ('/' :: '*' :: (body ++ '*' :: '/' :: gap))

/-- `skip (gap ++ rest) = skip rest` for a gap of blanks and comments in front of `rest`. -/
theorem IsGap.skip_append (isGap : IsGap rest gap) : skip (gap ++ rest) = skip rest := by
  induction isGap with
  | nil => rfl
  | blank isBlank _ ih => exact (skip_blank isBlank).trans ih
  | @line line gap isLine ends _ ih =>
    rw [List.cons_append, List.cons_append, List.append_assoc]
    exact (skip_line (afterLineComment?_eq_some_iff.2 ⟨line, isLine, rfl, ends⟩)).trans ih
  | @block body gap closed _ ih =>
    rw [List.cons_append, List.cons_append, List.append_assoc]
    exact (skip_block (afterBlockComment?_eq_some_iff.2 ⟨body, closed, rfl⟩)).trans ih

/-- `cs = gap ++ skip cs`: what is skipped is a gap of blanks and comments. -/
theorem exists_gap (cs : List Char) : ∃ gap, cs = gap ++ skip cs ∧ IsGap (skip cs) gap := by
  fun_induction skip cs with
  | case1 => exact ⟨[], rfl, .nil⟩
  | case2 cs ds found ih =>
    obtain ⟨line, isLine, rfl, ends⟩ := afterLineComment?_eq_some_iff.1 found
    obtain ⟨gap, same, isGap⟩ := ih
    refine ⟨'/' :: '/' :: (line ++ gap), ?_, .line isLine (same ▸ ends) isGap⟩
    rw [List.cons_append, List.cons_append, List.append_assoc, ← same]
  | case3 => exact ⟨[], rfl, .nil⟩
  | case4 cs ds found ih =>
    obtain ⟨body, closed, rfl⟩ := afterBlockComment?_eq_some_iff.1 found
    obtain ⟨gap, same, isGap⟩ := ih
    refine ⟨'/' :: '*' :: (body ++ '*' :: '/' :: gap), ?_, .block closed isGap⟩
    rw [List.cons_append, List.cons_append, List.append_assoc, List.cons_append, List.cons_append,
      ← same]
  | case5 => exact ⟨[], rfl, .nil⟩
  | case6 c cs _ _ blank ih =>
    obtain ⟨gap, same, isGap⟩ := ih
    exact ⟨c :: gap, congrArg (c :: ·) same, .blank blank isGap⟩
  | case7 => exact ⟨[], rfl, .nil⟩

/-- `skip cs <:+ cs`. -/
theorem skip_suffix (cs : List Char) : skip cs <:+ cs := by
  obtain ⟨gap, same, -⟩ := exists_gap cs
  exact ⟨gap, same.symm⟩

/-! ## Starts of tokens -/

/-- The second character of a symbol, or the one after it, is not `d` if the symbol does not start
with `d` in the second place. -/
theorem append_ne_cons {c d : Char} (ends : ∀ e ∈ rest.head?, isSymbolChar e = false)
    (symbolChar : isSymbolChar d = true) (other : ¬ [c, d] <+: c :: name) (ds : List Char) :
    name ++ rest ≠ d :: ds := by
  intro same
  cases name with
  | nil =>
    obtain rfl : rest = d :: ds := same
    exact Bool.false_ne_true ((ends d rfl).symm.trans symbolChar)
  | cons e name =>
    obtain ⟨rfl, -⟩ := List.cons.inj same
    exact other ⟨name, rfl⟩

/-- `skip (name ++ rest) = name ++ rest` for a symbol that does not start with `//` or `/*`. -/
theorem skip_symbol (nonempty : name ≠ []) (chars : ∀ c ∈ name, isSymbolChar c = true)
    (noLine : ¬ ['/', '/'] <+: name) (noBlock : ¬ ['/', '*'] <+: name)
    (ends : ∀ c ∈ rest.head?, isSymbolChar c = false) : skip (name ++ rest) = name ++ rest := by
  obtain ⟨c, name, rfl⟩ := List.exists_cons_of_ne_nil nonempty
  refine skip_cons_eq_self (fun blank => ?_) ?_
  · have first := chars c List.mem_cons_self
    rw [isSymbolChar, Text.isSpace_of_isBlank blank] at first
    cases first
  · rintro rfl ds
    exact ⟨append_ne_cons ends (by decide) noLine ds, append_ne_cons ends (by decide) noBlock ds⟩

/-- `skip (mark :: cs) = mark :: cs` for a quotation mark. -/
theorem skip_quotationMark (isMark : isQuotationMark mark = true) :
    skip (mark :: cs) = mark :: cs := by
  rcases isQuotationMark_iff.1 isMark with rfl | rfl
  · exact skip_cons_eq_self (by decide) fun slash => absurd slash (by decide)
  · exact skip_cons_eq_self (by decide) fun slash => absurd slash (by decide)

/-- `skip ('(' :: cs) = '(' :: cs`. -/
theorem skip_opening : skip ('(' :: cs) = '(' :: cs :=
  skip_cons_eq_self (by decide) fun slash => absurd slash (by decide)

theorem skip_closing : skip (')' :: cs) = ')' :: cs :=
  skip_cons_eq_self (by decide) fun slash => absurd slash (by decide)

end ClausalForm.Clif
