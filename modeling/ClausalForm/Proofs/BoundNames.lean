import ClausalForm.Proofs.FreshNames
import ClausalForm.Proofs.Threading
import ClausalForm.Standardized
import Mathlib.Data.List.Basic

/-! # Names of bound variables

The supply of names for bound variables goes through the sequence of all names and leaves out those
that are taken.

* **`roundName_injective`**: the sequence has no repetitions.
* **`VariableSupply.namesBetween`**: the names of a part of the sequence that are not taken.
* **`VariableSupply.Issues`**: these names handed out one after the other.
* **`VariableSupply.remaining`**: how many names of the first round are left; at the start these are
  the letters that are not taken.
* **`VariableSupply.ensures_nextFor`**: names for a list of variables, or none are left. -/

namespace ClausalForm

/-! ## The sequence of names -/

/-- Different letters stand at different places of a round. -/
theorem eq_of_letter_eq {i j : Nat} (hi : i < alphabetSize) (hj : j < alphabetSize)
    (same : Char.ofNat ('z'.toNat - i) = Char.ofNat ('z'.toNat - j)) : i = j := by
  have distinct : ∀ i < alphabetSize, ∀ j < alphabetSize,
      Char.ofNat ('z'.toNat - i) = Char.ofNat ('z'.toNat - j) → i = j := by decide
  exact distinct i hi j hj same

/-- `(roundName i).toList`: the characters of a name, which are a letter and the number of the round
after the first one. -/
theorem toList_roundName (i : Nat) :
    (roundName i).toList = Char.ofNat ('z'.toNat - i % alphabetSize) ::
      if i < alphabetSize then [] else Nat.toDigits 10 (i / alphabetSize) := by
  rw [roundName]
  split
  · exact String.toList_singleton _
  · rw [String.toList_append, String.toList_singleton, Nat.toList_repr, List.singleton_append]

/-- `roundName` is injective: the sequence of names has no repetitions. -/
theorem roundName_injective (i j : Nat) (same : roundName i = roundName j) : i = j := by
  rw [← String.toList_inj, toList_roundName, toList_roundName, List.cons.injEq] at same
  obtain ⟨letter, round⟩ := same
  have column : i % alphabetSize = j % alphabetSize :=
    eq_of_letter_eq (Nat.mod_lt i (by decide)) (Nat.mod_lt j (by decide)) letter
  -- Only the first round has no number.
  split at round <;> split at round
  · next hi hj => rwa [Nat.mod_eq_of_lt hi, Nat.mod_eq_of_lt hj] at column
  · exact absurd round.symm Nat.toDigits_ne_nil
  · exact absurd round Nat.toDigits_ne_nil
  · have row : i / alphabetSize = j / alphabetSize := by
      rw [← Nat.ofDigitChars_ten_toDigits (n := i / alphabetSize), round,
        Nat.ofDigitChars_ten_toDigits]
    rw [← Nat.div_add_mod i alphabetSize, row, column, Nat.div_add_mod]

/-- `roundName i ≠ ""`: no name is empty. -/
theorem roundName_ne_empty (i : Nat) : roundName i ≠ "" := by
  intro none
  rw [← String.toList_inj, toList_roundName] at none
  exact List.cons_ne_nil _ _ none

/-- `letters`: the names of the first round in alphabetical order. -/
def letters : List String := "abcdefghijklmnopqrstuvwxyz".toList.map String.singleton

/-- `letters.reverse`: the first round goes through the letters backwards. -/
theorem reverse_letters : letters.reverse = (List.range' 0 alphabetSize).map roundName := by decide

namespace VariableSupply

variable {s t u : VariableSupply} {names more taken : List String} {x : String} {i j k : Nat}

/-! ## Parts of the sequence -/

/-- The names from place `i` on and before place `j` that are not taken. -/
def namesBetween (taken : List String) (i j : Nat) : List String :=
  ((List.range' i (j - i)).map roundName).filter fun x => x ∉ taken

/-- `x ∈ namesBetween taken i j`: what stands in a part of the sequence. -/
theorem mem_namesBetween :
    x ∈ namesBetween taken i j ↔ x ∉ taken ∧ ∃ k, i ≤ k ∧ k < j ∧ x = roundName k := by
  rw [namesBetween, List.mem_filter, List.mem_map, decide_eq_true_eq]
  constructor
  · rintro ⟨⟨k, mem, rfl⟩, fresh⟩
    rw [List.mem_range'_1] at mem
    exact ⟨fresh, k, mem.1, by omega, rfl⟩
  · rintro ⟨fresh, k, le, lt, rfl⟩
    exact ⟨⟨k, List.mem_range'_1.2 ⟨le, by omega⟩, rfl⟩, fresh⟩

/-- `namesBetween taken i j` has no repetitions. -/
theorem nodup_namesBetween (taken : List String) (i j : Nat) : (namesBetween taken i j).Nodup := by
  refine .sublist List.filter_sublist (List.pairwise_map.2 ?_)
  have places : (List.range' i (j - i)).Nodup := List.nodup_range'
  exact places.imp fun {a b} ne same => ne (roundName_injective a b same)

/-- `namesBetween taken i j ++ namesBetween taken j k`: one part of the sequence after another
one. -/
theorem namesBetween_append (left : i ≤ j) (right : j ≤ k) :
    namesBetween taken i j ++ namesBetween taken j k = namesBetween taken i k := by
  have places : List.range' i (j - i) ++ List.range' j (k - j) = List.range' i (k - i) := by
    have start : i + (j - i) = j := by omega
    have size : j - i + (k - j) = k - i := by omega
    have together := List.range'_append_1 (s := i) (m := j - i) (n := k - j)
    rwa [start, size] at together
  rw [namesBetween, namesBetween, ← List.filter_append, ← List.map_append, places, namesBetween]

/-- `namesBetween taken i j = []`: nothing is left of a part of the sequence that is taken. -/
theorem namesBetween_eq_nil (all : ∀ k, i ≤ k → k < j → roundName k ∈ taken) :
    namesBetween taken i j = [] := by
  rw [List.eq_nil_iff_forall_not_mem]
  intro x mem
  obtain ⟨fresh, k, le, lt, rfl⟩ := mem_namesBetween.1 mem
  exact fresh (all k le lt)

/-- A name that is not taken is a part of the sequence. -/
theorem namesBetween_succ (fresh : roundName i ∉ taken) :
    namesBetween taken i (i + 1) = [roundName i] := by
  rw [namesBetween, Nat.add_sub_cancel_left, List.range'_one, List.map_singleton]
  exact List.filter_eq_self.2 fun x mem => by rw [List.mem_singleton.1 mem, decide_eq_true fresh]

/-! ## Names handed out -/

/-- From the supply `s` the supply `t` is reached by handing out `names`, which are the names up to
its place that are not taken. -/
structure Issues (s : VariableSupply) (names : List String) (t : VariableSupply) : Prop where
  naming : t.naming = s.naming
  taken : t.taken = s.taken
  le : s.position ≤ t.position
  eq : names = namesBetween s.taken s.position t.position
  issued : t.issued = s.issued + names.length
  bounded : s.naming = .alphabet → s.position ≤ alphabetSize → t.position ≤ alphabetSize

/-- `s.remaining`: the number of names of the first round that may still be handed out. -/
def remaining (s : VariableSupply) : Nat := (namesBetween s.taken s.position alphabetSize).length

namespace Issues

/-- `s.Issues [] s`: no name is handed out by no step. -/
theorem refl (s : VariableSupply) : s.Issues [] s := by
  refine ⟨rfl, rfl, Nat.le_refl _, ?_, rfl, fun _ le => le⟩
  rw [namesBetween, Nat.sub_self]
  rfl

/-- `s.Issues (names ++ more) u`: names handed out after other names. -/
theorem append (first : s.Issues names t) (second : t.Issues more u) :
    s.Issues (names ++ more) u := by
  refine ⟨second.naming.trans first.naming, second.taken.trans first.taken,
    Nat.le_trans first.le second.le, ?_, ?_, ?_⟩
  · rw [first.eq, second.eq, first.taken, namesBetween_append first.le second.le]
  · rw [second.issued, first.issued, List.length_append, Nat.add_assoc]
  · intro alphabet le
    exact second.bounded (first.naming.trans alphabet) (first.bounded alphabet le)

/-- `names.Nodup`: no name is handed out twice. -/
theorem nodup (h : s.Issues names t) : names.Nodup := by
  rw [h.eq]
  exact nodup_namesBetween _ _ _

/-- `x ∉ s.taken`: a name that is handed out is not taken, and stands before the place that is
reached. -/
theorem of_mem (h : s.Issues names t) (mem : x ∈ names) :
    x ∉ s.taken ∧ ∃ i, s.position ≤ i ∧ i < t.position ∧ x = roundName i := by
  rw [h.eq] at mem
  exact mem_namesBetween.1 mem

/-- `"" ∉ names`: the empty name is not handed out. -/
theorem named (h : s.Issues names t) : "" ∉ names := by
  intro mem
  obtain ⟨_, i, _, _, same⟩ := h.of_mem mem
  exact roundName_ne_empty i same.symm

/-- `s.remaining = names.length + t.remaining`: under one round of names, what is handed out is no
longer left. -/
theorem remaining_eq (h : s.Issues names t) (alphabet : s.naming = .alphabet)
    (le : s.position ≤ alphabetSize) : s.remaining = names.length + t.remaining := by
  rw [remaining, remaining, ← namesBetween_append h.le (h.bounded alphabet le), List.length_append,
    h.eq, h.taken]

end Issues

/-- The letters that are left out, counted in either list. -/
theorem length_filter_letters {names : List String} (nodup : names.Nodup) :
    (letters.filter fun x => x ∈ names).length = (names.filter fun x => x ∈ letters).length := by
  refine ((List.perm_ext_iff_of_nodup ?_ (nodup.sublist List.filter_sublist)).2 ?_).length_eq
  · exact .sublist List.filter_sublist (by decide)
  · intro x
    simp only [List.mem_filter, decide_eq_true_eq, and_comm]

/-- `(avoiding naming names).remaining`: a supply that leaves out some names starts with the other
letters. -/
theorem remaining_avoiding (naming : Naming) (names : List String) :
    (avoiding naming names).remaining =
      alphabetSize - (letters.filter fun x => x ∈ names).length := by
  -- The letters are those that are left out and those that are left.
  have all := List.length_eq_length_filter_add (l := letters) fun x => decide (x ∈ names)
  show (namesBetween names 0 alphabetSize).length = _
  rw [namesBetween, Nat.sub_zero, ← reverse_letters, List.filter_reverse, List.length_reverse]
  have size : letters.length = alphabetSize := by decide
  simp only [decide_not]
  omega

/-! ## The next names -/

/-- `s.next = .ok (x, t)`: the next name is handed out. -/
theorem issues_of_next (h : s.next = .ok (x, t)) : s.Issues [x] t := by
  have le := le_firstUnused roundName s.taken s.position
  have fresh := candidate_firstUnused_not_mem roundName_injective s.taken s.position
  simp only [next] at h
  split at h
  · cases h
  · next within =>
    cases h
    refine ⟨rfl, rfl, by simp only; omega, ?_, rfl, ?_⟩
    · -- Everything before the name that is found is taken.
      have before : namesBetween s.taken s.position (firstUnused roundName s.taken s.position) =
          [] := namesBetween_eq_nil fun k => mem_of_lt_firstUnused
      rw [← namesBetween_append le (Nat.le_succ _), before, namesBetween_succ fresh,
        List.nil_append]
    · intro alphabet _
      have := not_and.1 within alphabet
      simp only
      omega

/-- `s.next = .error e`: there is no next name only if the names of the first round are used up. -/
theorem of_next_eq_error {e : NormalizationError} (h : s.next = .error e) :
    s.naming = .alphabet ∧ s.remaining = 0 ∧ e = .tooManyVariables alphabetSize := by
  simp only [next] at h
  split at h
  · next beyond =>
    cases h
    refine ⟨beyond.1, List.length_eq_zero_iff.2 (namesBetween_eq_nil ?_), rfl⟩
    intro k le lt
    exact mem_of_lt_firstUnused le (Nat.lt_of_lt_of_le lt beyond.2)
  · cases h

/-- `issue.Ensures s`: the supply hands out one name, or none is left. -/
theorem ensures_issue (s : VariableSupply) :
    issue.Ensures s (fun x t => s.Issues [x] t) fun e =>
      s.naming = .alphabet ∧ s.remaining = 0 ∧ e = .tooManyVariables alphabetSize := by
  unfold Threaded.Ensures issue
  cases found : s.next with
  | error e => exact of_next_eq_error found
  | ok p => exact issues_of_next found

/-- `(nextFor xs).Ensures s`: the supply hands out a name for each variable of a list, or it has too
few names left. -/
theorem ensures_nextFor (xs : List String) (s : VariableSupply)
    (start : s.naming = .alphabet → s.position ≤ alphabetSize) :
    (nextFor xs).Ensures s (fun ys t => s.Issues ys t ∧ ys.length = xs.length) fun e =>
      s.naming = .alphabet ∧ s.remaining < xs.length ∧ e = .tooManyVariables alphabetSize := by
  induction xs generalizing s with
  | nil => exact ⟨.refl s, rfl⟩
  | cons x xs ih =>
    rw [nextFor, List.map_cons, Threaded.ensures_inOrder_cons]
    refine s.ensures_issue.mono ?_ ?_
    · -- The place that is reached stays in the first round, if there is only one round.
      intro y t first
      have next : t.naming = .alphabet → t.position ≤ alphabetSize := by
        intro alphabet
        rw [first.naming] at alphabet
        exact first.bounded alphabet (start alphabet)
      refine (ih t next).mono ?_ ?_
      · intro ys u h
        exact ⟨first.append h.1, congrArg Nat.succ h.2⟩
      · -- The first name is handed out, but not one for each of the others.
        intro e failed
        obtain ⟨alphabet, few, same⟩ := failed
        rw [first.naming] at alphabet
        have left := first.remaining_eq alphabet (start alphabet)
        refine ⟨alphabet, ?_, same⟩
        rw [List.length_singleton] at left
        rw [left, List.length_cons]
        omega
    · -- There is no first name.
      intro e failed
      obtain ⟨alphabet, empty, same⟩ := failed
      exact ⟨alphabet, by simp [empty], same⟩

end VariableSupply

end ClausalForm
