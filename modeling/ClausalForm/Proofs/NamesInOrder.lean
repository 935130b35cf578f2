import ClausalForm.Proofs.Loops
import ClausalForm.Proofs.StandardizedNames

/-! # Calls of a supply of names for bound variables

A supply on its own, called any number of times, also after it has failed.

* **`VariableSupply.turn`**, **`VariableSupply.loop_next`**: a call is a loop along the sequence of
  names, which ends.
* **`VariableSupply.calls`**: the results of some calls and the supply after them.
* **`VariableSupply.exists_calls_eq`**: names come first and failures after them.
* **`VariableSupply.calls_avoiding`**: which names these are, and how many. -/

namespace ClausalForm.VariableSupply

variable {s t : VariableSupply} {x : String} {n : Nat}

/-! ## One call -/

/-- `turn s`: one turn of a call. The name at the place reached is handed out, or passed over
because it is taken. Past the first round a supply with one round of names fails. -/
def turn (s : VariableSupply) :
    VariableSupply ⊕ Except NormalizationError (String × VariableSupply) :=
  if s.naming = .alphabet ∧ alphabetSize ≤ s.position then
    .inr (.error (.tooManyVariables alphabetSize))
  else if roundName s.position ∈ s.taken then .inl { s with position := s.position + 1 }
  else .inr (.ok (roundName s.position,
    { s with position := s.position + 1, issued := s.issued + 1 }))

/-- `Loop turn turns s s.next`: a call takes its turns until it returns the next name or fails, at
most one more than there are taken names. -/
theorem loop_next (s : VariableSupply) :
    ∃ turns ≤ s.taken.length + 1, Loop turn turns s s.next := by
  have forward := le_firstUnused roundName s.taken s.position
  have fresh := candidate_firstUnused_not_mem roundName_injective s.taken s.position
  have passes : ∀ i, ¬ (s.naming = .alphabet ∧ alphabetSize ≤ i) → roundName i ∈ s.taken →
      turn { s with position := i } = .inl { s with position := i + 1 } := by
    intro i within taken
    rw [turn, if_neg within, if_pos taken]
  by_cases beyond : s.naming = .alphabet ∧
      alphabetSize ≤ firstUnused roundName s.taken s.position
  · -- The call fails at the end of the first round, or at once if it starts after it.
    have failed : s.next = .error (.tooManyVariables alphabetSize) := if_pos beyond
    have here : turn { s with position := max s.position alphabetSize } = .inr s.next := by
      rw [failed]
      exact if_pos ⟨beyond.1, Nat.le_max_right _ _⟩
    exact Loop.of_taken (fun i => { s with position := i }) (Nat.le_max_left _ _)
      (Nat.max_le.2 ⟨forward, beyond.2⟩) (fun i after before => passes i (by omega)) here
  · have found : turn { s with position := firstUnused roundName s.taken s.position } =
        .inr s.next := by
      rw [turn, if_neg beyond, if_neg fresh, next, if_neg beyond]
    have within : ∀ i < firstUnused roundName s.taken s.position,
        ¬ (s.naming = .alphabet ∧ alphabetSize ≤ i) := fun i before past =>
      beyond ⟨past.1, Nat.le_of_lt (Nat.lt_of_le_of_lt past.2 before)⟩
    exact Loop.of_taken (fun i => { s with position := i }) forward (Nat.le_refl _)
      (fun i _ before => passes i (within i before)) found

/-! ## Some calls -/

/-- `calls n s`: the results of so many calls, one after the other, and the supply after them. A
call that fails does not end the use of the supply. -/
def calls : Nat → VariableSupply → List (Except NormalizationError String) × VariableSupply
  | 0, s => ([], s)
  | n + 1, s => ((issue s).1.result :: (calls n (issue s).2).1, (calls n (issue s).2).2)

/-- `s.granted n`: how many of so many calls hand out a name. -/
def granted (s : VariableSupply) (n : Nat) : Nat :=
  match s.naming with
  | .unbounded => n
  | .alphabet => min n s.remaining

/-- `calls (n + 1) s`: a call that hands out a name, and the calls after it. -/
theorem calls_succ_of_next (h : s.next = .ok (x, t)) :
    calls (n + 1) s = (.ok x :: (calls n t).1, (calls n t).2) := by
  have issued : issue s = (pure x, t) := by rw [issue, h]
  rw [calls, issued]
  rfl

/-- `calls (n + 1) s`: a call that fails, and the calls after it. -/
theorem calls_succ_of_error {e : NormalizationError} (h : s.next = .error e) :
    calls (n + 1) s = (.error e :: (calls n s).1, (calls n s).2) := by
  have issued : issue s = (.ofExcept (.error e), s) := by rw [issue, h]
  rw [calls, issued]
  rfl

/-- `s.granted (n + 1)`: a call that hands out a name leaves one less for the calls after it. -/
theorem granted_succ (first : s.Issues [x] t)
    (start : s.naming = .alphabet → s.position ≤ alphabetSize) :
    s.granted (n + 1) = t.granted n + 1 := by
  rw [granted, granted, first.naming]
  cases naming : s.naming with
  | unbounded => rfl
  | alphabet =>
    have left := first.remaining_eq naming (start naming)
    rw [List.length_singleton] at left
    simp only [left]
    omega

/-- `calls n s`: some calls hand out names first, as many as are granted, and fail from then on. -/
theorem exists_calls_eq (n : Nat) (s : VariableSupply)
    (start : s.naming = .alphabet → s.position ≤ alphabetSize) :
    ∃ names, (calls n s).1 = names.map .ok ++
        List.replicate (n - names.length) (.error (.tooManyVariables alphabetSize)) ∧
      s.Issues names (calls n s).2 ∧ names.length = s.granted n := by
  induction n generalizing s with
  | zero =>
    refine ⟨[], rfl, .refl s, ?_⟩
    cases naming : s.naming <;> simp [granted, naming]
  | succ n ih =>
    cases called : s.next with
    | error e =>
      -- No name is left, so all of the calls fail.
      obtain ⟨alphabet, none, rfl⟩ := of_next_eq_error called
      obtain ⟨names, results, issues, size⟩ := ih s start
      have granted : ∀ n, s.granted n = 0 := fun n => by simp [granted, alphabet, none]
      obtain rfl : names = [] := List.length_eq_zero_iff.1 (size.trans (granted n))
      rw [calls_succ_of_error called, results]
      exact ⟨[], rfl, issues, (granted (n + 1)).symm⟩
    | ok p =>
      obtain ⟨x, t⟩ := p
      have first := issues_of_next called
      have within : t.naming = .alphabet → t.position ≤ alphabetSize := by
        intro alphabet
        rw [first.naming] at alphabet
        exact first.bounded alphabet (start alphabet)
      obtain ⟨names, results, issues, size⟩ := ih t within
      rw [calls_succ_of_next called, results]
      refine ⟨x :: names, ?_, first.append issues, ?_⟩
      · rw [List.length_cons, Nat.add_sub_add_right, List.map_cons, List.cons_append]
      · rw [granted_succ first start, List.length_cons, size]

/-- **Names in order.** A supply never repeats a name, and hands out none of those that it leaves
out: `calls n` hands out the first of the other names of the sequence, in their order. It always
does with several rounds; with one round it hands out the letters that are not left out, and then
fails. Every call ends. -/
theorem calls_avoiding (naming : Naming) (taken : List String) (n : Nat) :
    (∀ s : VariableSupply, ∃ turns ≤ s.taken.length + 1, Loop turn turns s s.next) ∧
      ∃ names : List String,
        (calls n (avoiding naming taken)).1 = names.map .ok ++
            List.replicate (n - names.length) (.error (.tooManyVariables alphabetSize)) ∧
          names = (List.range names.length).map
            (fun i => roundName (Nat.nth (fun j => roundName j ∉ taken) i)) ∧
          names.Nodup ∧ (∀ x ∈ names, x ∉ taken) ∧
          names.length = (match naming with
            | .unbounded => n
            | .alphabet => min n (alphabetSize - (letters.filter fun x => x ∈ taken).length)) ∧
          (calls n (avoiding naming taken)).2.issued = names.length := by
  refine ⟨loop_next, ?_⟩
  obtain ⟨names, results, issues, size⟩ :=
    exists_calls_eq n (avoiding naming taken) fun _ => Nat.zero_le _
  refine ⟨names, results, issues.eq_map_nth, issues.nodup, fun x mem => (issues.of_mem mem).1, ?_,
    issues.issued.trans (Nat.zero_add _)⟩
  rw [size, granted, remaining_avoiding]
  rfl

/-- The first round but for `y` is followed by `y1`, since `z1` is left out. -/
example : (calls 26 (avoiding .unbounded ["y", "z1"])).1.getLast?.map Except.toOption =
    some (some "y1") := by
  cbv

end ClausalForm.VariableSupply
