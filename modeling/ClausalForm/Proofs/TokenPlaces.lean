import ClausalForm.Proofs.Gaps

/-! # Places of tokens

A token takes characters from the front of a text, and so do the blanks and comments before it. What
is left is the end of the text. A place, the number of bytes from there to the end, therefore stands
for one part of the text.

* **`Clif.Token.read?_suffix`**: what is left after a token is the end of the text.
* **`Clif.tokens_of_spells`**: the tokens of a text that starts with a given one.
* **`Clif.exists_suffix_of_tokens_eq`**: the last tokens of a text are those of its end.
* **`Clif.exists_start_of_mem_tokens`**: a token starts with a part of the text without anything to
  skip in front.
* **`Clif.start_le_of_mem_tokens`**, **`Clif.stop_le_of_mem_tokens`**: a token starts in the text,
  and ends after it starts. -/

namespace ClausalForm.Clif

variable {cs ds gap name rest text : List Char} {t : Token} {p : PlacedToken}
  {before ts : List PlacedToken}

/-! ## Parts of a text -/

/-- `cs <:+ ds`: the end of a text that is as large as the text is all of it. -/
theorem eq_of_suffix (part : cs <:+ ds) (size : Text.utf8Size cs = Text.utf8Size ds) : cs = ds := by
  obtain ⟨before, rfl⟩ := part
  match before with
  | [] => rfl
  | c :: before =>
    have := c.utf8Size_pos
    rw [Text.utf8Size_append, Text.utf8Size_cons] at size
    omega

/-- The end of a text is no larger than the text. -/
theorem utf8Size_le_of_suffix (part : cs <:+ ds) : Text.utf8Size cs ≤ Text.utf8Size ds := by
  obtain ⟨before, rfl⟩ := part
  rw [Text.utf8Size_append]
  exact Nat.le_add_left _ _

/-- `Text.utf8Size cs`: a part at the end of a text is known by its size. -/
theorem eq_of_suffixes (left : cs <:+ text) (right : ds <:+ text)
    (size : Text.utf8Size cs = Text.utf8Size ds) : cs = ds := by
  rcases List.suffix_or_suffix_of_suffix left right with part | part
  · exact eq_of_suffix part size
  · exact (eq_of_suffix part size.symm).symm

/-! ## Tokens -/

/-- `rest <:+ cs`: what follows a token is the end of the text. -/
theorem Token.read?_suffix (h : read? cs = some (t, rest)) : rest <:+ cs := by
  match cs with
  | [] => cases h
  | c :: cs =>
    refine List.IsSuffix.trans ?_ (List.suffix_cons c cs)
    rw [read?] at h
    split_ifs at h with _ _ isMark
    · obtain ⟨-, rfl⟩ := Prod.mk.inj (Option.some.inj h)
      exact List.suffix_refl _
    · obtain ⟨-, rfl⟩ := Prod.mk.inj (Option.some.inj h)
      exact List.suffix_refl _
    -- A quotation mark without a partner takes all that is left.
    · split at h
      · next inner after found =>
        obtain ⟨-, rfl⟩ := Prod.mk.inj (Option.some.inj h)
        obtain ⟨chars, -, -, rfl⟩ := (quotedText?_eq_some_iff isMark).1 found
        exact (List.suffix_cons _ _).trans (List.suffix_append _ _)
      · obtain ⟨-, rfl⟩ := Prod.mk.inj (Option.some.inj h)
        exact List.nil_suffix
    · obtain ⟨-, rfl⟩ := Prod.mk.inj (Option.some.inj h)
      exact List.dropWhile_suffix _
    · obtain ⟨-, rfl⟩ := Prod.mk.inj (Option.some.inj h)
      exact List.nil_suffix

/-- `Token.read? cs = none`: there is a token wherever there is text. -/
theorem Token.read?_eq_none_iff : read? cs = none ↔ cs = [] := by
  constructor
  · intro h
    match cs with
    | [] => rfl
    | c :: cs =>
      rw [read?] at h
      split_ifs at h
      split at h <;> cases h
  · rintro rfl
    rfl

/-- No text has no token. -/
theorem tokens_nil : tokens [] = [] := by
  rw [tokens]
  rfl

/-- `tokens cs`: the tokens of a text, the first one apart. -/
theorem tokens_of_read? (h : Token.read? cs = some (t, rest)) :
    tokens cs = ⟨t, Text.utf8Size cs, Text.utf8Size rest⟩ :: tokens (skip rest) := by
  rw [tokens]
  split
  · next found => cases h.symm.trans found
  · next t' rest' found =>
    obtain ⟨rfl, rfl⟩ := Prod.mk.inj (Option.some.inj (h.symm.trans found))
    rfl

/-- `t.start = Text.utf8Size cs`: where a text has tokens, the first one starts at once. -/
theorem exists_token_of_ne_nil (some : cs ≠ []) : ∃ t ∈ tokens cs, t.start = Text.utf8Size cs := by
  obtain ⟨⟨t, rest⟩, found⟩ := Option.ne_none_iff_exists'.1 fun none =>
    some (Token.read?_eq_none_iff.1 none)
  rw [tokens_of_read? found]
  exact ⟨_, List.mem_cons_self, rfl⟩

/-- `tokens (name ++ rest)`: the tokens of a text, the first one apart, which is written at its
start. -/
theorem tokens_of_spells (spells : t.Spells name) (ends : t.EndsBefore rest) :
    tokens (name ++ rest) =
      ⟨t, Text.utf8Size (name ++ rest), Text.utf8Size rest⟩ :: tokens (skip rest) :=
  tokens_of_read? (Token.read?_of_spells spells ends)

/-- The tokens of a text, the first one apart, which is written at its start in front of blanks and
comments. -/
theorem tokens_of_spells_of_isGap (spells : t.Spells name) (ends : t.EndsBefore (gap ++ rest))
    (isGap : IsGap rest gap) (fixed : skip rest = rest) : tokens (name ++ (gap ++ rest)) =
      ⟨t, Text.utf8Size (name ++ (gap ++ rest)), Text.utf8Size (gap ++ rest)⟩ :: tokens rest := by
  rw [tokens_of_spells spells ends, isGap.skip_append, fixed]

/-- `tokens cs = p :: ts`: the first token of a text, and those after it. -/
theorem tokens_eq_cons_iff : tokens cs = p :: ts ↔ ∃ rest,
    Token.read? cs = some (p.token, rest) ∧ p.start = Text.utf8Size cs ∧
      p.stop = Text.utf8Size rest ∧ tokens (skip rest) = ts := by
  constructor
  · intro h
    match found : Token.read? cs with
    | none =>
      rw [Token.read?_eq_none_iff.1 found, tokens_nil] at h
      cases h
    | some (token, rest) =>
      rw [tokens_of_read? found] at h
      obtain ⟨rfl, rfl⟩ := List.cons.inj h
      exact ⟨rest, rfl, rfl, rfl, rfl⟩
  · rintro ⟨rest, found, start, stop, rfl⟩
    rw [tokens_of_read? found, ← start, ← stop]

/-- `tokens cs = before ++ ts`: the last tokens of a text are those of its end. -/
theorem exists_suffix_of_tokens_eq (fixed : skip cs = cs) (h : tokens cs = before ++ ts) :
    ∃ ds, ds <:+ cs ∧ skip ds = ds ∧ tokens ds = ts := by
  induction before generalizing cs with
  | nil => exact ⟨cs, List.suffix_refl cs, fixed, h⟩
  | cons p before ih =>
    obtain ⟨rest, found, -, -, others⟩ := tokens_eq_cons_iff.1 h
    obtain ⟨ds, part, fixed', same⟩ := ih (skip_skip rest) others
    exact ⟨ds, (part.trans (skip_suffix rest)).trans (Token.read?_suffix found), fixed', same⟩

/-- A token starts with a part of the text that has nothing to skip in front. -/
theorem exists_start_of_mem_tokens (fixed : skip cs = cs) :
    ∀ p ∈ tokens cs, ∃ ds, ds <:+ cs ∧ skip ds = ds ∧ p.start = Text.utf8Size ds := by
  intro p mem
  obtain ⟨before, ts, all⟩ := List.append_of_mem mem
  obtain ⟨ds, part, fixed', found⟩ := exists_suffix_of_tokens_eq fixed all
  obtain ⟨-, -, start, -, -⟩ := tokens_eq_cons_iff.1 found
  exact ⟨ds, part, fixed', start⟩

/-- `t.start ≤ Text.utf8Size text`: no token starts before the text. -/
theorem start_le_of_mem_tokens : ∀ t ∈ tokens (skip text), t.start ≤ Text.utf8Size text := by
  intro t mem
  obtain ⟨ds, part, -, start⟩ := exists_start_of_mem_tokens (skip_skip text) t mem
  exact start ▸ utf8Size_le_of_suffix (part.trans (skip_suffix text))

/-- `t.StandsIn text`: a token starts in the text, and a symbol is spelled there as it is named. -/
structure PlacedToken.StandsIn (text : List Char) (t : PlacedToken) : Prop where
  start_le : t.start ≤ Text.utf8Size text
  spelled : ∀ name, t.token = .symbol name → ∃ before after,
    text = before ++ (name.toList ++ after) ∧ t.start = Text.utf8Size (name.toList ++ after)

/-- `t.StandsIn text`: the tokens of a text stand in it. -/
theorem standsIn_of_mem_tokens : ∀ t ∈ tokens (skip text), t.StandsIn text := by
  intro t mem
  refine ⟨start_le_of_mem_tokens t mem, fun name symbol => ?_⟩
  obtain ⟨earlier, ts, all⟩ := List.append_of_mem mem
  obtain ⟨ds, part, -, found⟩ := exists_suffix_of_tokens_eq (skip_skip text) all
  obtain ⟨after, read, start, -, -⟩ := tokens_eq_cons_iff.1 found
  rw [symbol] at read
  obtain ⟨chars, spells, rfl, -⟩ := Token.exists_spells_of_read? read ⟨nofun, nofun⟩
  cases spells with
  | symbol =>
    obtain ⟨before, same⟩ := part.trans (skip_suffix text)
    rw [String.toList_ofList]
    exact ⟨before, after, same.symm, start⟩

/-- No token starts at the end of the text. -/
theorem start_pos_of_mem_tokens {cs : List Char} : ∀ t ∈ tokens cs, 0 < t.start := by
  fun_induction tokens cs with
  | case1 => exact List.forall_mem_nil _
  | case2 cs t rest found ih =>
    refine List.forall_mem_cons.2 ⟨?_, ih⟩
    match cs with
    | [] => cases found
    | c :: cs => exact Nat.add_pos_left c.utf8Size_pos _

/-- `t.stop ≤ t.start`: no token ends before it starts. -/
theorem stop_le_of_mem_tokens {cs : List Char} : ∀ t ∈ tokens cs, t.stop ≤ t.start := by
  fun_induction tokens cs with
  | case1 => exact List.forall_mem_nil _
  | case2 cs t rest found ih =>
    exact List.forall_mem_cons.2 ⟨utf8Size_le_of_suffix (Token.read?_suffix found), ih⟩

end ClausalForm.Clif
