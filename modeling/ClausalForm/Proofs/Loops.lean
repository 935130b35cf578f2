import ClausalForm.Naming.Unused

/-! # Loops that search for a name

A supply looks for its next name in a loop: each turn tries one candidate, which is handed out or
passed over. Such a loop ends because the candidates passed over are different taken names.

* **`Loop`**: the turns of a loop up to the one that ends it.
* **`Loop.unique`**: a loop returns one result only.
* **`Loop.of_passes`**: a loop that passes over some places and ends at the next one.
* **`firstUnused_le`**: as many candidates as there are taken names are passed over at most.
* **`Loop.of_taken`**: a loop that passes over taken names only ends. -/

namespace ClausalForm

/-- `Loop turn n s r`: from the state `s` the loop returns `r` after `n` turns. A turn leads to a
state from which the next turn is taken, or it returns. -/
inductive Loop {σ ρ : Type} (turn : σ → σ ⊕ ρ) : Nat → σ → ρ → Prop
  | last {s : σ} {r : ρ} (returns : turn s = .inr r) : Loop turn 1 s r
  | again {s t : σ} {n : Nat} {r : ρ} (goesOn : turn s = .inl t) (rest : Loop turn n t r) :
      Loop turn (n + 1) s r

/-- `r = r'`: a loop returns one result only. -/
theorem Loop.unique {σ ρ : Type} {turn : σ → σ ⊕ ρ} {s : σ} {r r' : ρ} {m n : Nat}
    (h : Loop turn m s r) (h' : Loop turn n s r') : r = r' := by
  induction h generalizing n with
  | last returns =>
    cases h' with
    | last returns' => exact Sum.inr.inj (returns.symm.trans returns')
    | again goesOn => cases returns.symm.trans goesOn
  | again goesOn _ ih =>
    cases h' with
    | last returns => cases goesOn.symm.trans returns
    | again goesOn' rest =>
      cases goesOn.symm.trans goesOn'
      exact ih rest

/-- A loop that goes on at each place before the place `k` and returns there. -/
theorem Loop.of_passes {σ ρ : Type} {turn : σ → σ ⊕ ρ} (place : Nat → σ) {r : ρ} {i k : Nat}
    (le : i ≤ k) (passes : ∀ j, i ≤ j → j < k → turn (place j) = .inl (place (j + 1)))
    (returns : turn (place k) = .inr r) : Loop turn (k - i + 1) (place i) r := by
  -- The induction is on the number of places that are left.
  induction gap : k - i generalizing i with
  | zero =>
    obtain rfl : i = k := by omega
    exact .last returns
  | succ n ih =>
    have rest : Loop turn (n + 1) (place (i + 1)) r :=
      ih (by omega) (fun j after => passes j (by omega)) (by omega)
    exact .again (passes i (Nat.le_refl i) (by omega)) rest

/-- `firstUnused candidate taken start` passes over no more candidates than there are taken
names. -/
theorem firstUnused_le (candidate : Nat → String) (taken : List String) (start : Nat) :
    firstUnused candidate taken start ≤ start + taken.length := by
  fun_induction firstUnused candidate taken start with
  | case1 taken start h ih =>
    have struck := List.length_erase_of_mem h
    have some := List.length_pos_of_mem h
    omega
  | case2 taken start h => omega

/-- A loop that goes on where the candidate is taken, and returns at the latest at the first one
that is not, takes no more than `taken.length + 1` turns. -/
theorem Loop.of_taken {σ ρ : Type} {turn : σ → σ ⊕ ρ} (place : Nat → σ) {r : ρ}
    {candidate : Nat → String} {taken : List String} {start k : Nat} (le : start ≤ k)
    (upTo : k ≤ firstUnused candidate taken start)
    (passes : ∀ i, start ≤ i → i < k → candidate i ∈ taken →
      turn (place i) = .inl (place (i + 1)))
    (returns : turn (place k) = .inr r) :
    ∃ turns ≤ taken.length + 1, Loop turn turns (place start) r := by
  have bound := firstUnused_le candidate taken start
  refine ⟨k - start + 1, by omega, .of_passes place le (fun i after before => ?_) returns⟩
  exact passes i after before (mem_of_lt_firstUnused after (Nat.lt_of_lt_of_le before upTo))

end ClausalForm
