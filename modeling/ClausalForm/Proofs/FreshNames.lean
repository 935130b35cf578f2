import ClausalForm.Naming.Fresh

/-! # Fresh names

The names of function values are never taken and never repeated.

* **`numbered_injective`**: different numbers give different names.
* **`FreshSupply.Issues`**: some names handed out one after the other; all of them were new, and all
  of them are taken from then on.
* **`FreshSupply.issues_next`**: the next name is handed out. -/

namespace ClausalForm

/-! ## Numbered names -/

/-- Different numbers have different decimal digits. -/
theorem eq_of_repr_eq {i j : Nat} (same : i.repr = j.repr) : i = j := by
  have digits : Nat.toDigits 10 i = Nat.toDigits 10 j := by
    rw [← Nat.toList_repr, ← Nat.toList_repr, same]
  rw [← Nat.ofDigitChars_ten_toDigits (n := i), digits, Nat.ofDigitChars_ten_toDigits]

/-- `numbered stem` is injective: different numbers give different names. -/
theorem numbered_injective (stem : String) (i j : Nat) (same : numbered stem i = numbered stem j) :
    i = j := by
  rw [numbered, numbered, ← String.toList_inj, String.toList_append, String.toList_append] at same
  exact eq_of_repr_eq (String.toList_inj.1 (List.append_cancel_left same))

/-- A name with a number is not empty. -/
theorem numbered_ne_empty (stem : String) (i : Nat) : numbered stem i ≠ "" := by
  intro none
  rw [numbered, ← String.toList_inj, String.toList_append, String.toList_empty] at none
  have digits := (List.append_eq_nil_iff.1 none).2
  rw [Nat.toList_repr] at digits
  exact Nat.toDigits_ne_nil digits

namespace FreshSupply

variable {s t u : FreshSupply} {names more : List String} {x : String}

/-! ## Names handed out -/

/-- From the supply `s` the supply `t` is reached by handing out `names`: none of them was taken,
none is handed out twice, and all are taken in `t`. -/
structure Issues (s : FreshSupply) (names : List String) (t : FreshSupply) : Prop where
  taken : t.taken = names.reverse ++ s.taken
  nodup : names.Nodup
  fresh : ∀ x ∈ names, x ∉ s.taken
  named : "" ∉ names

namespace Issues

/-- `s.Issues [] s`: no name is handed out by no step. -/
theorem refl (s : FreshSupply) : s.Issues [] s :=
  ⟨rfl, .nil, List.forall_mem_nil _, List.not_mem_nil⟩

/-- `x ∈ t.taken`: what is taken after some names have been handed out. -/
theorem mem_taken (h : s.Issues names t) : x ∈ t.taken ↔ x ∈ names ∨ x ∈ s.taken := by
  rw [h.taken, List.mem_append, List.mem_reverse]

/-- `s.Issues (names ++ more) u`: names handed out after other names. -/
theorem append (first : s.Issues names t) (second : t.Issues more u) :
    s.Issues (names ++ more) u := by
  refine ⟨?_, List.nodup_append.2 ⟨first.nodup, second.nodup, ?_⟩, ?_, ?_⟩
  · rw [second.taken, first.taken, List.reverse_append, List.append_assoc]
  · rintro x left y right rfl
    exact second.fresh x right (first.mem_taken.2 (.inl left))
  · intro x mem
    rcases List.mem_append.1 mem with left | right
    · exact first.fresh x left
    · exact fun taken => second.fresh x right (first.mem_taken.2 (.inr taken))
  · rw [List.mem_append, not_or]
    exact ⟨first.named, second.named⟩

end Issues

/-- `s.Issues [(next function s).1]`: the next name is handed out. -/
theorem issues_next (function : String) (s : FreshSupply) :
    s.Issues [(next function s).1] (next function s).2 := by
  refine ⟨rfl, List.pairwise_singleton _ _, ?_, ?_⟩
  · intro x mem
    rw [List.mem_singleton.1 mem]
    exact candidate_firstUnused_not_mem (numbered_injective _) s.taken (s.counter + 1)
  · intro mem
    exact numbered_ne_empty _ _ (List.mem_singleton.1 mem).symm

end FreshSupply

end ClausalForm
