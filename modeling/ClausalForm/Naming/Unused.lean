import ClausalForm.Formula.Construct

/-! # The first unused name

A supply of names numbers its candidates and hands out the first one, from a given number on, that
is not taken. The search ends because every candidate passed over is one of finitely many taken
names.

* **`firstUnused`**: the number of that candidate.
* **`le_firstUnused`**, **`candidate_firstUnused_not_mem`**, **`mem_of_lt_firstUnused`**: it is
  the least number from the start on whose candidate is not taken, provided that different numbers
  have different candidates. -/

namespace ClausalForm

/-- The least number from `start` on whose candidate is not taken. A name passed over is struck
off, since no later candidate can be equal to it. -/
def firstUnused (candidate : Nat → String) (taken : List String) (start : Nat) : Nat :=
  if candidate start ∈ taken then
    firstUnused candidate (taken.erase (candidate start)) (start + 1)
  else start
termination_by taken.length
decreasing_by
  rename_i h
  have := List.length_pos_of_mem h
  rw [List.length_erase_of_mem h]
  omega

/-- `start ≤ firstUnused candidate taken start`: the search goes forward. -/
theorem le_firstUnused (candidate : Nat → String) (taken : List String) (start : Nat) :
    start ≤ firstUnused candidate taken start := by
  fun_induction firstUnused candidate taken start with
  | case1 taken start h ih => omega
  | case2 taken start h => omega

/-- `firstUnused` finds a candidate that is not taken, if no two candidates are the same. -/
theorem candidate_firstUnused_not_mem {candidate : Nat → String}
    (injective : ∀ i j, candidate i = candidate j → i = j) (taken : List String) (start : Nat) :
    candidate (firstUnused candidate taken start) ∉ taken := by
  fun_induction firstUnused candidate taken start with
  | case1 taken start h ih =>
    intro mem
    refine ih ((List.mem_erase_of_ne fun same => ?_).2 mem)
    have := le_firstUnused candidate (taken.erase (candidate start)) (start + 1)
    have := injective _ _ same
    omega
  | case2 taken start h => exact h

/-- Every candidate that `firstUnused` passes over is taken. -/
theorem mem_of_lt_firstUnused {candidate : Nat → String} {taken : List String} {start i : Nat}
    (le : start ≤ i) (lt : i < firstUnused candidate taken start) : candidate i ∈ taken := by
  fun_induction firstUnused candidate taken start with
  | case1 taken start h ih =>
    rcases Nat.eq_or_lt_of_le le with rfl | after
    · exact h
    · exact List.mem_of_mem_erase (ih after lt)
  | case2 taken start h => omega

end ClausalForm
