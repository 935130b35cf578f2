import ClausalForm.Proofs.ShiftedNodes

/-! # Slices of a text

A slice of a text goes from the start of a token to the end of one. The tokens in it are those of
the slice on its own, although a reader looks at what follows: after a symbol, inside of a comment
and behind a slash. One thing may go wrong. A line comment ends with the text, so that `//` in front
of a lone carriage return, which opens no comment, opens one where the text is cut off before the
carriage return. If every carriage return stands before a line feed, every line comment has an end.

* **`Clif.ReturnsPaired`**: every carriage return stands before a line feed.
* **`Clif.skip_eq_self_of_append`**, **`Clif.skip_append_of_skip_eq`**: blanks and comments where
  the text is cut off.
* **`Clif.IsSlice`**: a text that starts and ends with a token.
* **`Clif.exists_slice`**: tokens in a row are those of a slice. -/

namespace ClausalForm.Clif

variable {cs ds gap after : List Char} {own more : List PlacedToken}

/-! ## Carriage returns -/

/-- `ReturnsPaired cs`: every carriage return stands before a line feed. -/
def ReturnsPaired (cs : List Char) : Prop := ∀ ds, '\r' :: ds <:+ cs → ds.head? = some '\n'

theorem returnsPaired_nil : ReturnsPaired [] := by
  intro ds part
  cases List.suffix_nil.1 part

/-- `ReturnsPaired (c :: cs)`: of `c` and of what follows it. -/
theorem returnsPaired_cons_iff {c : Char} :
    ReturnsPaired (c :: cs) ↔ (c = '\r' → cs.head? = some '\n') ∧ ReturnsPaired cs := by
  constructor
  · refine fun paired => ⟨?_, fun ds part => paired ds (part.trans (List.suffix_cons c cs))⟩
    rintro rfl
    exact paired cs (List.suffix_refl _)
  · rintro ⟨first, others⟩ ds part
    rcases List.suffix_cons_iff.1 part with same | part
    · obtain ⟨rfl, rfl⟩ := List.cons.inj same
      exact first rfl
    · exact others ds part

/-- `ReturnsPaired cs` gives `ReturnsPaired ds` for a suffix `ds`. -/
theorem ReturnsPaired.of_suffix (paired : ReturnsPaired cs) (part : ds <:+ cs) : ReturnsPaired ds :=
  fun es part' => paired es (part'.trans part)

/-- `afterLineComment? cs ≠ none`: every line comment has an end. -/
theorem ReturnsPaired.afterLineComment?_ne_none (paired : ReturnsPaired cs) :
    afterLineComment? cs ≠ none := by
  fun_induction afterLineComment? cs with
  | case1 | case2 | case3 => exact Option.some_ne_none _
  | case4 cs other =>
    -- The carriage return would stand before a character other than the line feed.
    have next := paired cs (List.suffix_refl _)
    cases cs with
    | nil => cases next
    | cons c cs => exact (other cs (congrArg (· :: cs) (Option.some.inj next))).elim
  | case5 c cs _ _ _ ih => exact ih (paired.of_suffix (List.suffix_cons c cs))

/-! ## Blanks and comments where the text is cut off -/

/-- `skip ds = ds` if `skip` leaves the longer text `ds ++ after` as it is. -/
theorem skip_eq_self_of_append (paired : ReturnsPaired (ds ++ after))
    (fixed : skip (ds ++ after) = ds ++ after) : skip ds = ds := by
  obtain ⟨gap, same, isGap⟩ := exists_gap ds
  cases isGap with
  | nil => exact same.symm
  | blank isBlank =>
    rw [same] at fixed
    exact absurd isBlank (not_isBlank_of_skip_eq_self fixed)
  | line =>
    rw [same] at fixed paired
    have behind := paired.of_suffix (List.suffix_append ['/', '/'] _)
    exact absurd (skip_line_eq_self_iff.1 fixed) behind.afterLineComment?_ne_none
  | @block body gap =>
    rw [same] at fixed
    refine absurd ?_ (afterBlockComment?_eq_none_iff.1 (skip_block_eq_self_iff.1 fixed))
    exact ⟨body, gap ++ skip ds ++ after, by simp⟩

/-- `EndsLine (gap ++ (ds ++ after))` gives `EndsLine (gap ++ ds)`. -/
theorem EndsLine.of_append (ends : EndsLine (gap ++ (ds ++ after))) (some : ds ≠ [])
    (fixed : skip (ds ++ after) = ds ++ after) : EndsLine (gap ++ ds) := by
  obtain ⟨d, ds, rfl⟩ := List.exists_cons_of_ne_nil some
  have visible := not_isBlank_of_skip_eq_self fixed
  match gap with
  | [] =>
    rcases endsLine_cons_iff.1 ends with rfl | ⟨rfl, -⟩
    · exact absurd rfl visible
    · exact absurd rfl visible
  | [c] =>
    refine endsLine_cons_iff.2 ((endsLine_cons_iff.1 ends).imp_right ?_)
    rintro ⟨-, next⟩
    obtain rfl := Option.some.inj next
    exact absurd rfl visible
  | c :: c' :: gap =>
    have first := endsLine_cons_iff.1 ends
    exact endsLine_cons_iff.2 first

/-- `IsGap (ds ++ after) gap` gives `IsGap ds gap`. -/
theorem IsGap.of_append (isGap : IsGap (ds ++ after) gap) (some : ds ≠ [])
    (fixed : skip (ds ++ after) = ds ++ after) : IsGap ds gap := by
  induction isGap with
  | nil => exact .nil
  | blank isBlank _ ih => exact .blank isBlank ih
  | line isLine ends _ ih => exact .line isLine (ends.of_append some fixed) ih
  | block closed _ ih => exact .block closed ih

/-- `skip (gap ++ ds) = ds` for a gap in front of the longer text `ds ++ after`. -/
theorem skip_append_of_skip_eq (isGap : IsGap (ds ++ after) gap) (some : ds ≠ [])
    (paired : ReturnsPaired (ds ++ after)) (fixed : skip (ds ++ after) = ds ++ after) :
    skip (gap ++ ds) = ds :=
  (isGap.of_append some fixed).skip_append.trans (skip_eq_self_of_append paired fixed)

/-! ## Tokens in a row -/

/-- The text starts with a token and ends with one. -/
structure IsSlice (cs : List Char) : Prop where
  fixed : skip cs = cs
  last : ∀ t ∈ (tokens cs).getLast?, t.stop = 0

/-- `t.EndsBefore (ds ++ after)` gives `t.EndsBefore ds`. -/
theorem Token.EndsBefore.of_append {t : Token} (ends : t.EndsBefore (ds ++ after)) :
    t.EndsBefore ds := by
  match t, ds with
  | .symbol _, [] => rintro c ⟨⟩
  | .symbol _, c :: ds => exact ends
  | .opening, _ | .closing, _ | .quoted _, _ | .unterminated, _ | .stray, _ => trivial

/-- **Tokens in a row.** Whole tokens with which `tokens cs` starts are those of a slice of `cs`,
moved by what follows the slice. -/
theorem exists_slice (fixed : skip cs = cs) (paired : ReturnsPaired cs)
    (whole : ∀ t ∈ own, t.token.IsWhole) (some : own ≠ []) (h : tokens cs = own ++ more) :
    ∃ part after, cs = part ++ after ∧ IsSlice part ∧
      own = (tokens part).map (.shift (Text.utf8Size after)) := by
  induction own generalizing cs with
  | nil => exact absurd rfl some
  | cons t own ih =>
    obtain ⟨first, others⟩ := List.forall_mem_cons.1 whole
    obtain ⟨token, start, stop⟩ := t
    obtain ⟨rest, found, rfl, rfl, behind⟩ := tokens_eq_cons_iff.1 h
    obtain ⟨name, spells, rfl, ends⟩ := Token.exists_spells_of_read? found first
    cases own with
    | nil =>
      have atEnd : token.EndsBefore [] := ends.of_append
      have alone := tokens_of_spells spells atEnd
      rw [List.append_nil, skip, tokens_nil] at alone
      refine ⟨name, rest, rfl, ⟨skip_eq_self_of_append paired fixed, ?_⟩, ?_⟩
      · simp [alone]
      · simp [alone, PlacedToken.shift, PlacedToken.relocate]
    | cons t' own =>
      have later := (skip_suffix rest).trans (List.suffix_append name rest)
      obtain ⟨part, after, cut, slice, same⟩ :=
        ih (skip_skip rest) (paired.of_suffix later) others (List.cons_ne_nil t' own) behind
      have nonempty : tokens part ≠ [] := by
        intro none
        rw [none] at same
        cases same
      have kept : part ≠ [] := by
        rintro rfl
        exact nonempty tokens_nil
      -- What is skipped after the token is the same where the text is cut off.
      obtain ⟨gap, split, isGap⟩ := exists_gap rest
      have fixed' := skip_skip rest
      have paired' := paired.of_suffix later
      rw [cut] at split isGap fixed' paired'
      rw [← List.append_assoc] at split
      subst split
      have all := tokens_of_spells spells ends.of_append
      rw [skip_append_of_skip_eq isGap kept paired' fixed'] at all
      rw [← List.append_assoc] at paired fixed
      refine ⟨name ++ (gap ++ part), after, (List.append_assoc ..).symm,
        ⟨skip_eq_self_of_append paired fixed, ?_⟩, ?_⟩
      · rw [all, List.getLast?_cons_of_ne_nil nonempty]
        exact slice.last
      · rw [all, List.map_cons, ← same]
        simp [PlacedToken.shift, PlacedToken.relocate, Nat.add_assoc]

end ClausalForm.Clif
