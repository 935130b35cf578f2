import ClausalForm.Proofs.ShiftedNodes

/-! # Texts one after the other

Two texts with a line feed between them have the tokens of the first one and then those of the
second one, with one exception. A symbol of the first text may start like a comment that has no end
there: `//` in a last line that a carriage return alone ends, which the line feed completes, or
`/*`, which any mark `*/` of the second text ends. What such a symbol starts is a comment of both
texts.

* **`Clif.Apart`**: no token of the first text starts like that.
* **`Clif.skip_append`**, **`Clif.Token.read?_append`**: one comment or token before more text.
* **`Clif.tokens_append_iff`**: the tokens are those of both texts exactly if these are apart. -/

namespace ClausalForm.Clif

variable {cs ds rest text b : List Char} {t : Token}

/-! ## Comments -/

/-- `EndsLine ds` gives `EndsLine (ds ++ '\n' :: b)`. -/
theorem EndsLine.append (ends : EndsLine ds) : EndsLine (ds ++ '\n' :: b) := by
  cases ends with
  | nil => exact .lineFeed
  | lineFeed => exact .lineFeed
  | returned => exact .returned

/-- `afterLineComment? cs = some ds`: the comment ends in `cs` whatever follows after a line
feed. -/
theorem afterLineComment?_append (h : afterLineComment? cs = some ds) :
    afterLineComment? (cs ++ '\n' :: b) = some (ds ++ '\n' :: b) := by
  obtain ⟨line, isLine, rfl, ends⟩ := afterLineComment?_eq_some_iff.1 h
  exact afterLineComment?_eq_some_iff.2 ⟨line, isLine, List.append_assoc .., ends.append⟩

/-- `afterLineComment? cs = none`: the comment has no end in the longer text either, unless the line
feed completes the line end of its only line. -/
theorem afterLineComment?_append_none (h : afterLineComment? cs = none)
    (apart : ∀ line, IsLine line → cs ≠ line ++ ['\r']) :
    afterLineComment? (cs ++ '\n' :: b) = none := by
  fun_induction afterLineComment? cs with
  | case1 => cases h
  | case2 => cases h
  | case3 => cases h
  | case4 cs other =>
    cases cs with
    | nil => exact absurd rfl (apart [] (List.forall_mem_nil _))
    | cons c cs =>
      rw [List.cons_append, List.cons_append, afterLineComment?]
      intro ds same
      obtain ⟨rfl, -⟩ := List.cons.inj same
      exact other _ rfl
  | case5 c cs lineFeed _ carriageReturn ih =>
    refine (afterLineComment?_cons lineFeed carriageReturn).trans (ih h fun line isLine same => ?_)
    refine apart (c :: line) (List.forall_mem_cons.2 ⟨⟨lineFeed, carriageReturn⟩, isLine⟩) ?_
    rw [same, List.cons_append]

/-- `cs ++ '\n' :: b` starts with what `cs` starts with, unless that is the line feed. -/
theorem exists_cons_of_append {d : Char} (same : cs ++ '\n' :: b = d :: ds) (other : d ≠ '\n') :
    ∃ es, cs = d :: es := by
  cases cs with
  | nil => exact absurd (List.cons.inj same).1.symm other
  | cons c cs => exact ⟨cs, congrArg (· :: cs) (List.cons.inj same).1⟩

/-- `afterBlockComment? cs = some ds`: the comment ends in `cs` whatever follows. -/
theorem afterBlockComment?_append (h : afterBlockComment? cs = some ds) :
    afterBlockComment? (cs ++ '\n' :: b) = some (ds ++ '\n' :: b) := by
  obtain ⟨body, closed, rfl⟩ := afterBlockComment?_eq_some_iff.1 h
  exact afterBlockComment?_eq_some_iff.2 ⟨body, closed, List.append_assoc ..⟩

/-- `afterBlockComment? cs = none` and `afterBlockComment? b = none` give none for
`cs ++ '\n' :: b`. -/
theorem afterBlockComment?_append_none (h : afterBlockComment? cs = none)
    (more : afterBlockComment? b = none) : afterBlockComment? (cs ++ '\n' :: b) = none := by
  fun_induction afterBlockComment? cs with
  | case1 => exact more
  | case2 => cases h
  | case3 c cs other ih =>
    rw [List.cons_append, afterBlockComment?]
    · exact ih h
    · rintro es rfl same
      obtain ⟨fs, rfl⟩ := exists_cons_of_append same (by decide)
      exact other fs rfl rfl

/-- A text that starts with a comment only if a line feed and the text `b` follow it: its carriage
return is half of a line end, or `b` has the mark that ends a block comment. -/
inductive OpensComment (b : List Char) : List Char → Prop
  | line {line : List Char} (isLine : IsLine line) : OpensComment b ('/' :: '/' :: line ++ ['\r'])
  | block {cs : List Char} (closed : ['*', '/'] <:+: b) : OpensComment b ('/' :: '*' :: cs)

/-- What remains of two texts, a line feed between them, where a given text remains of the first
one: all of that text and `b`, but only what is left after skipping if nothing remains. -/
def remaining (b : List Char) : List Char → List Char
  | [] => skip b
  | c :: cs => c :: cs ++ '\n' :: b

/-- `skip (cs ++ '\n' :: b)` is what remains of `skip cs`, or of `b` if that is nothing. -/
theorem skip_append (apart : ¬ OpensComment b (skip cs)) :
    skip (cs ++ '\n' :: b) = remaining b (skip cs) := by
  -- By the recursion of `skip`: a comment that ends in `cs` ends there in the longer text, and one
  -- without an end is ruled out or gets none.
  fun_induction skip cs with
  | case1 => exact skip_blank rfl
  | case2 cs ds found ih =>
    exact (skip_line (afterLineComment?_append found)).trans (ih apart)
  | case3 cs found =>
    refine skip_line_eq_self_iff.2 (afterLineComment?_append_none found ?_)
    rintro line isLine rfl
    exact apart (.line isLine)
  | case4 cs ds found ih =>
    exact (skip_block (afterBlockComment?_append found)).trans (ih apart)
  | case5 cs found =>
    refine skip_block_eq_self_iff.2 (afterBlockComment?_append_none found ?_)
    exact afterBlockComment?_eq_none_iff.2 fun closed => apart (.block closed)
  | case6 c cs line block blank ih => exact (skip_blank blank).trans (ih apart)
  | case7 c cs line block other =>
    rw [List.cons_append, skip, if_neg other]
    · rfl
    · rintro ds rfl same
      obtain ⟨es, rfl⟩ := exists_cons_of_append same (by decide)
      exact line es rfl rfl
    · rintro ds rfl same
      obtain ⟨es, rfl⟩ := exists_cons_of_append same (by decide)
      exact block es rfl rfl

/-- What becomes a comment when a line feed and the text `b` follow is skipped then. -/
theorem OpensComment.skip_ne (h : OpensComment b rest) :
    skip (rest ++ '\n' :: b) ≠ rest ++ '\n' :: b := by
  cases h with
  | line isLine =>
    rw [List.cons_append, List.cons_append, List.append_assoc]
    intro fixed
    cases (skip_line_eq_self_iff.1 fixed).symm.trans (afterLineComment?_line isLine)
  | block closed =>
    rw [List.cons_append, List.cons_append]
    intro fixed
    refine afterBlockComment?_eq_none_iff.1 (skip_block_eq_self_iff.1 fixed) (closed.trans ?_)
    exact (List.suffix_append_of_suffix (List.suffix_cons '\n' b)).isInfix

/-! ## Tokens -/

/-- `t.EndsBefore rest` gives `t.EndsBefore (rest ++ '\n' :: b)`. -/
theorem Token.EndsBefore.append (ends : t.EndsBefore rest) : t.EndsBefore (rest ++ '\n' :: b) := by
  match t, rest with
  | .symbol _, [] =>
    rintro c ⟨⟩
    rfl
  | .symbol _, c :: rest => exact ends
  | .opening, _ | .closing, _ | .quoted _, _ | .unterminated, _ | .stray, _ => trivial

/-- `Token.read?` takes the same whole token from `cs` and from `cs ++ '\n' :: b`. -/
theorem Token.read?_append (h : read? cs = some (t, rest)) (whole : t.IsWhole) :
    read? (cs ++ '\n' :: b) = some (t, rest ++ '\n' :: b) := by
  obtain ⟨name, spells, rfl, ends⟩ := exists_spells_of_read? h whole
  rw [List.append_assoc]
  exact read?_of_spells spells ends.append

/-- A token starts where `rest` remains of the text. -/
def StartsToken (text rest : List Char) : Prop :=
  rest <:+ text ∧ ∃ t ∈ tokens (skip text), t.start = Text.utf8Size rest

/-- No token of the text starts with what is a comment when a line feed and the text `b` follow. -/
def Apart (text b : List Char) : Prop := ∀ rest, StartsToken text rest → ¬ OpensComment b rest

/-- `¬ OpensComment b cs` for a suffix of a text no token of which starts with what becomes a
comment. -/
theorem not_opensComment (part : cs <:+ text)
    (apart : ∀ rest, rest <:+ text → (∃ t ∈ tokens cs, t.start = Text.utf8Size rest) →
      ¬ OpensComment b rest) : ¬ OpensComment b cs := by
  intro opens
  refine apart cs part (exists_token_of_ne_nil ?_) opens
  rintro rfl
  cases opens

/-- `tokens (remaining b cs)` are those of `cs`, moved, and those of `b`: by induction on the tokens
of `cs`. -/
theorem tokens_remaining (part : cs <:+ text) (whole : ∀ t ∈ tokens cs, t.token.IsWhole)
    (apart : ∀ rest, rest <:+ text → (∃ t ∈ tokens cs, t.start = Text.utf8Size rest) →
      ¬ OpensComment b rest) :
    tokens (remaining b cs) =
      (tokens cs).map (.shift (Text.utf8Size ('\n' :: b))) ++ tokens (skip b) := by
  fun_induction tokens cs with
  | case1 cs found =>
    obtain rfl := Token.read?_eq_none_iff.1 found
    rfl
  | case2 cs t rest found ih =>
    obtain ⟨first, others⟩ := List.forall_mem_cons.1 whole
    -- What is left after the token is the end of the first text, so that no comment opens there.
    have later : skip rest <:+ text :=
      ((skip_suffix rest).trans (Token.read?_suffix found)).trans part
    have apart' : ∀ ds, ds <:+ text → (∃ t ∈ tokens (skip rest), t.start = Text.utf8Size ds) →
        ¬ OpensComment b ds := by
      rintro ds part' ⟨t, mem, start⟩
      exact apart ds part' ⟨t, List.mem_cons_of_mem _ mem, start⟩
    have joined : remaining b cs = cs ++ '\n' :: b := by
      cases cs with
      | nil => cases found
      | cons c cs => rfl
    rw [joined, tokens_of_read? (Token.read?_append found first),
      skip_append (not_opensComment later apart'), ih later others apart', Text.utf8Size_append,
      Text.utf8Size_append]
    rfl

/-- `tokens (skip (text ++ '\n' :: b))` are the tokens of `text`, moved, and those of `b`, if the
texts are `Apart`. -/
theorem tokens_append (whole : ∀ t ∈ tokens (skip text), t.token.IsWhole) (apart : Apart text b) :
    tokens (skip (text ++ '\n' :: b)) =
      (tokens (skip text)).map (.shift (Text.utf8Size ('\n' :: b))) ++ tokens (skip b) := by
  have apart' := fun rest part starts => apart rest ⟨part, starts⟩
  rw [skip_append (not_opensComment (skip_suffix text) apart')]
  exact tokens_remaining (skip_suffix text) whole apart'

/-- **Tokens of two texts.** Those of `text ++ '\n' :: b` are those of `text`, moved, and those of
`b` exactly if `Apart text b`: no token of `text` becomes a comment. -/
theorem tokens_append_iff (whole : ∀ t ∈ tokens (skip text), t.token.IsWhole) :
    tokens (skip (text ++ '\n' :: b)) =
      (tokens (skip text)).map (.shift (Text.utf8Size ('\n' :: b))) ++ tokens (skip b) ↔
    Apart text b := by
  refine ⟨?_, tokens_append whole⟩
  -- The token at which a comment opens would start where there is something to skip.
  rintro same rest ⟨part, t, mem, start⟩ opens
  have moved : t.shift (Text.utf8Size ('\n' :: b)) ∈ tokens (skip (text ++ '\n' :: b)) := by
    rw [same]
    exact List.mem_append_left _ (List.mem_map_of_mem mem)
  obtain ⟨ds, part', fixed, start'⟩ := exists_start_of_mem_tokens (skip_skip _) _ moved
  have found : ds = rest ++ '\n' :: b := by
    refine eq_of_suffixes (part'.trans (skip_suffix _)) ?_ ?_
    · exact (List.suffix_append_inj_of_length_eq rfl).2 ⟨part, rfl⟩
    · rw [← start', Text.utf8Size_append, ← start]
      rfl
  exact opens.skip_ne (found ▸ fixed)

end ClausalForm.Clif
