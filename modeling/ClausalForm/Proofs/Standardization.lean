import ClausalForm.Proofs.AlphaEquivalence
import ClausalForm.Proofs.BoundNames

/-! # Standardization

Standardizing a formula gives its bound variables new names, or reports a free variable or a lack of
names. Which of the three happens is known beforehand.

* **`Atom.result_standardize`**: an atom is renamed, or its first variable without a quantifier is
  refused.
* **`Formula.ensures_standardizeIn`**: a formula below some bindings.
* **`Formula.Standardized`**: the result is the formula with new and different bound variables.
* **`Formula.exists_standardize_iff`**: when there is a result.
* **`Formula.of_standardize_eq_error`**: which error there is otherwise. -/

namespace ClausalForm

/-! ## Variables looked up one by one -/

section Lookup

variable {ε α β : Type} {refused : String → Bool} {report : String → ε}

/-- `(f <$> x).result`: the result of a function of a value. -/
theorem Recorded.result_map (f : α → β) (x : Recorded ε α) : (f <$> x).result = f <$> x.result := by
  show (x >>= fun a => pure (f a)).result = _
  rw [Recorded.result_bind]
  rfl

/-- `(inOrder xs).result`: the results of computations in order. -/
theorem Recorded.result_inOrder (xs : List (Recorded ε α)) :
    (inOrder xs).result = inOrder (xs.map Recorded.result) := by
  induction xs with
  | nil => rfl
  | cons x xs ih =>
    rw [inOrder, List.map_cons, inOrder, Recorded.result_bind]
    simp only [Recorded.result_bind, ih]
    rfl

/-- `acceptAll refused report`: several computations need all the variables that each of them
needs. -/
theorem Recorded.result_inOrder_map {f : α → Recorded ε β} {needs : α → List String} {value : α → β}
    {as : List α}
    (each : ∀ a ∈ as, (f a).result = acceptAll refused report (needs a) (value a)) :
    (inOrder (as.map f)).result =
      acceptAll refused report (as.flatMap needs) (as.map value) := by
  rw [Recorded.result_inOrder, List.map_map, ← inOrder_acceptAll]
  exact congrArg inOrder (List.map_congr_left each)

variable {lookup : String → Recorded ε String} {name : String → String}

/-- `t.traverse lookup`: a term is renamed if none of its variables is refused. -/
theorem Term.result_traverse
    (each : ∀ x, (lookup x).result = acceptAll refused report [x] (name x)) (t : Term) :
    (t.traverse lookup).result = acceptAll refused report t.occurrences (t.rename name) := by
  match t with
  | .var x => rw [traverse, Recorded.result_map, each, map_acceptAll, occurrences, rename]
  | .app f ts =>
    have args := Recorded.result_inOrder_map fun t (_ : t ∈ ts) => Term.result_traverse each t
    rw [traverse, Recorded.result_map, args, map_acceptAll, occurrences, rename]

/-- `a.traverse lookup`: an atom is renamed if none of its variables is refused. -/
theorem Atom.result_traverse
    (each : ∀ x, (lookup x).result = acceptAll refused report [x] (name x)) (a : Atom) :
    (a.traverse lookup).result = acceptAll refused report a.occurrences (a.rename name) := by
  have args := Recorded.result_inOrder_map fun t (_ : t ∈ a.args) => Term.result_traverse each t
  rw [traverse, Recorded.result_map, args, map_acceptAll, occurrences, rename]

end Lookup

/-- `refuses policy m x`: a variable without a binding is refused under the strict policy. -/
def refuses (policy : UnboundPolicy) (m : Renaming) (x : String) : Bool :=
  policy = .strict ∧ x ∉ m.map Prod.fst

/-- `a.standardize policy m`: an atom is renamed by its bindings, unless one of its variables is
refused. -/
theorem Atom.result_standardize (policy : UnboundPolicy) (m : Renaming) (a : Atom) :
    (a.standardize policy m).result =
      acceptAll (refuses policy m) .unbound a.occurrences (a.rename m.rename) := by
  rw [standardize]
  refine Atom.result_traverse ?_ a
  intro x
  rw [Renaming.lookup_eq, acceptAll, List.find?_singleton, refuses]
  by_cases mem : x ∈ m.map Prod.fst
  · simp [mem]
  · rw [Renaming.rename_of_not_mem mem]
    cases policy with
    | strict => simp [mem]
    | permissive =>
      simp only [mem, if_false]
      rfl

namespace Formula

variable {policy : UnboundPolicy} {m : Renaming} {s t : VariableSupply} {φ r : Formula}
  {xs ys names free more : List String} {n k : Nat} {e : NormalizationError}

/-! ## What standardizing needs -/

/-- The bindings `m` have different names, which the supply has handed out, and the other free
variables of a formula are not handed out. -/
structure Ready (m : Renaming) (s : VariableSupply) (free : List String) : Prop where
  nodup : (m.map Prod.snd).Nodup
  issued : ∀ y ∈ m.map Prod.snd, y ∉ s.taken ∧ ∃ i < s.position, y = roundName i
  known : ∀ x ∈ free, x ∈ m.map Prod.fst ∨ x ∈ s.taken
  start : s.naming = .alphabet → s.position ≤ alphabetSize

namespace Ready

/-- `Ready m s more`: what is ready stays ready for fewer variables. -/
theorem mono (h : Ready m s free) (fewer : ∀ x ∈ more, x ∈ free) : Ready m s more :=
  ⟨h.nodup, h.issued, fun x mem => h.known x (fewer x mem), h.start⟩

/-- `Ready m t free`: what is ready stays ready when names are handed out. -/
theorem later (h : Ready m s free) (issues : s.Issues names t) : Ready m t free := by
  refine ⟨h.nodup, ?_, ?_, ?_⟩
  · intro y mem
    obtain ⟨fresh, i, lt, same⟩ := h.issued y mem
    exact ⟨issues.taken ▸ fresh, i, Nat.lt_of_lt_of_le lt issues.le, same⟩
  · rw [issues.taken]
    exact h.known
  · intro alphabet
    rw [issues.naming] at alphabet
    exact issues.bounded alphabet (h.start alphabet)

/-- `Ready (.ofPlaces xs ys ++ m) t free`: new names make a quantifier's body ready. -/
theorem inside (h : Ready m s (free.filter fun x => !xs.contains x)) (issues : s.Issues ys t)
    (length : xs.length = ys.length) : Ready (.ofPlaces xs ys ++ m) t free := by
  have renamed : (Renaming.ofPlaces xs ys).map Prod.snd = ys.reverse := by
    rw [Renaming.ofPlaces, List.map_reverse, List.map_snd_zip (Nat.le_of_eq length.symm)]
  refine ⟨?_, ?_, ?_, (h.later issues).start⟩
  · rw [List.map_append, renamed]
    refine List.nodup_append.2 ⟨List.nodup_reverse.2 issues.nodup, h.nodup, ?_⟩
    rintro y new z old rfl
    -- The names of the bindings stand before the place at which the new ones start.
    obtain ⟨_, i, lt, first⟩ := h.issued y old
    obtain ⟨_, k, le, _, second⟩ := issues.of_mem (List.mem_reverse.1 new)
    have := roundName_injective i k (first.symm.trans second)
    omega
  · intro y mem
    rw [List.map_append, renamed, List.mem_append, List.mem_reverse] at mem
    rcases mem with new | old
    · obtain ⟨fresh, i, _, lt, same⟩ := issues.of_mem new
      exact ⟨issues.taken ▸ fresh, i, lt, same⟩
    · exact (h.later issues).issued y old
  · intro x mem
    rw [List.map_append, List.mem_append, Renaming.mem_fst_ofPlaces (Nat.le_of_eq length)]
    by_cases bound : x ∈ xs
    · exact .inl (.inl bound)
    · rw [or_assoc]
      exact .inr ((h.later issues).known x (by simp [mem, bound]))

/-- Every free variable can be told from its new name. -/
theorem recovers (h : Ready m s free) {x : String} (mem : x ∈ free) : m.Recovers x := by
  refine Renaming.recovers_of_nodup h.nodup ?_
  intro unbound renamed
  exact (h.issued x renamed).1 ((h.known x mem).resolve_left unbound)

end Ready

/-! ## Why standardizing fails -/

/-- Why formulas with the free occurrences `free` and `n` bound variables cannot be standardized. -/
inductive Fails (policy : UnboundPolicy) (m : Renaming) (s : VariableSupply) (free : List String)
    (n : Nat) : NormalizationError → Prop
  /-- The first variable without a binding is refused. -/
  | unbound {x : String} (first : free.find? (refuses policy m) = some x) :
      Fails policy m s free n (.unbound x)
  /-- There are fewer names than variables. -/
  | exhausted (alphabet : s.naming = .alphabet) (few : s.remaining < n) :
      Fails policy m s free n (.tooManyVariables alphabetSize)

namespace Fails

/-- `Fails policy m s (free ++ more)`: what fails with some formulas fails with more formulas behind
them. -/
theorem before (h : Fails policy m s free n e) (more : List String) (k : Nat) :
    Fails policy m s (free ++ more) (n + k) e := by
  cases h with
  | unbound first => exact .unbound (by rw [List.find?_append, first]; rfl)
  | exhausted alphabet few => exact .exhausted alphabet (Nat.lt_add_right k few)

/-- `Fails policy m s (free ++ more)`: what fails after some formulas have been standardized fails
with them in front. -/
theorem after (h : Fails policy m t more k e) (none : free.find? (refuses policy m) = none)
    (issues : s.Issues names t) (start : s.naming = .alphabet → s.position ≤ alphabetSize) :
    Fails policy m s (free ++ more) (names.length + k) e := by
  cases h with
  | unbound first => exact .unbound (by rw [List.find?_append, none]; exact first)
  | exhausted alphabet few =>
    rw [issues.naming] at alphabet
    refine .exhausted alphabet ?_
    rw [issues.remaining_eq alphabet (start alphabet)]
    omega

end Fails

/-- Inside of a quantifier the variables that it binds are not refused. -/
theorem find?_inside (length : xs.length = ys.length) (free : List String) :
    free.find? (refuses policy (.ofPlaces xs ys ++ m)) =
      (free.filter fun x => !xs.contains x).find? (refuses policy m) := by
  rw [List.find?_filter]
  congr 1
  funext x
  have bound : x ∈ (Renaming.ofPlaces xs ys).map Prod.fst ↔ x ∈ xs :=
    Renaming.mem_fst_ofPlaces (Nat.le_of_eq length)
  simp only [refuses, List.map_append, List.mem_append, bound, List.contains_eq_mem]
  by_cases mem : x ∈ xs <;> simp [mem]

/-- `Fails policy (.ofPlaces xs ys ++ m)`: what fails inside of a quantifier fails outside of it. -/
theorem Fails.outside (h : Fails policy (.ofPlaces xs ys ++ m) s free n e)
    (length : xs.length = ys.length) :
    Fails policy m s (free.filter fun x => !xs.contains x) n e := by
  cases h with
  | unbound first => exact .unbound (find?_inside length free ▸ first)
  | exhausted alphabet few => exact .exhausted alphabet few

/-! ## Standardizing below bindings -/

/-- `inOrder (φs.map (standardizeIn policy m))`: formulas one after the other are standardized, or
the first failure is that of all of them. -/
theorem ensures_inOrder_standardizeIn {φs : List Formula}
    (each : ∀ φ ∈ φs, ∀ s, Ready m s φ.freeOccurrences → (φ.standardizeIn policy m).Ensures s
      (fun r t => AlphaEq m φ r ∧ s.Issues r.boundVariables t ∧
        φ.freeOccurrences.find? (refuses policy m) = none)
      (Fails policy m s φ.freeOccurrences φ.boundVariables.length))
    (ready : Ready m s (φs.flatMap freeOccurrences)) :
    (inOrder (φs.map (standardizeIn policy m))).Ensures s
      (fun rs t => List.Forall₂ (AlphaEq m) φs rs ∧ s.Issues (rs.flatMap boundVariables) t ∧
        (φs.flatMap freeOccurrences).find? (refuses policy m) = none)
      (Fails policy m s (φs.flatMap freeOccurrences) (φs.flatMap boundVariables).length) := by
  induction φs generalizing s with
  | nil => exact ⟨.nil, .refl s, rfl⟩
  | cons φ φs ih =>
    rw [List.forall_mem_cons] at each
    simp only [List.flatMap_cons, List.length_append] at ready ⊢
    rw [List.map_cons, Threaded.ensures_inOrder_cons]
    -- What follows starts with the names that the first member leaves.
    refine (each.1 s (ready.mono fun x mem => by simp [mem])).mono
      (fun r t h => ?_) fun e failed => failed.before _ _
    obtain ⟨like, issues, accepted⟩ := h
    refine (ih each.2 ((ready.later issues).mono fun x mem => by simp [mem])).mono ?_ ?_
    · intro rs u h
      obtain ⟨alike, later, rest⟩ := h
      refine ⟨.cons like alike, issues.append later, ?_⟩
      rw [List.find?_append, accepted, rest]
      rfl
    · intro e failed
      -- A failure behind the first member counts the names that it took.
      rw [← like.length_boundVariables]
      exact failed.after accepted issues ready.start

/-- `φ.standardizeIn policy m`: a formula below some bindings is standardized, or there is a
variable to refuse or a lack of names. -/
theorem ensures_standardizeIn (policy : UnboundPolicy) (φ : Formula)
    (ready : Ready m s φ.freeOccurrences) :
    (φ.standardizeIn policy m).Ensures s
      (fun r t => AlphaEq m φ r ∧ s.Issues r.boundVariables t ∧
        φ.freeOccurrences.find? (refuses policy m) = none)
      (Fails policy m s φ.freeOccurrences φ.boundVariables.length) := by
  -- Each pass through a quantifier adds its bindings and takes their names off the supply; `Ready`
  -- is what all bindings and the supply have in common.
  induction φ using induction generalizing m s with
  | atom a =>
    rw [standardizeIn, Threaded.ensures_ofRecorded, Recorded.result_map, Atom.result_standardize,
      map_acceptAll]
    rw [freeOccurrences_atom] at ready ⊢
    rw [boundVariables_atom]
    unfold acceptAll
    cases found : a.occurrences.find? (refuses policy m) with
    | some x => exact .unbound found
    | none =>
      refine ⟨.atom fun x mem => ready.recovers mem, ?_, rfl⟩
      rw [boundVariables_atom]
      exact .refl s
  | not φ ih =>
    rw [freeOccurrences_not] at ready ⊢
    rw [standardizeIn, Threaded.ensures_map, boundVariables_not]
    refine (ih ready).mono (fun r t h => ?_) fun e failed => failed
    obtain ⟨like, issues, accepted⟩ := h
    exact ⟨.not like, by rwa [boundVariables_not], accepted⟩
  | connective op φs ih =>
    rw [freeOccurrences_connective] at ready ⊢
    rw [standardizeIn, Threaded.ensures_map]
    refine (ensures_inOrder_standardizeIn (fun φ mem s ready => ih φ mem ready) ready).mono ?_ ?_
    · intro rs t h
      obtain ⟨alike, issues, accepted⟩ := h
      exact ⟨.of_members alike, by rwa [boundVariables_connective], accepted⟩
    · intro e failed
      rwa [boundVariables_connective]
  | quantified q xs φ ih =>
    rw [freeOccurrences] at ready ⊢
    rw [standardizeIn, Threaded.ensures_bind, boundVariables_quantified, List.length_append]
    refine (VariableSupply.ensures_nextFor xs s ready.start).mono ?_ ?_
    · intro ys t h
      obtain ⟨issues, length⟩ := h
      rw [Threaded.ensures_map]
      refine (ih (ready.inside issues length.symm)).mono ?_ ?_
      · intro r u h
        obtain ⟨like, later, accepted⟩ := h
        refine ⟨.quantified length.symm like, ?_, find?_inside length.symm _ ▸ accepted⟩
        rw [boundVariables_quantified]
        exact issues.append later
      · intro e failed
        have none : ([] : List String).find? (refuses policy m) = none := rfl
        have outer := (failed.outside length.symm).after none issues ready.start
        rwa [length] at outer
    · intro e failed
      obtain ⟨alphabet, few, same⟩ := failed
      rw [same]
      exact .exhausted alphabet (Nat.lt_add_right _ few)

/-! ## Standardizing a formula -/

/-- `r` is `φ` with bound variables that are different from each other and from the free ones. -/
structure Standardized (φ r : Formula) : Prop where
  alike : AlphaEq [] φ r
  nodup : r.boundVariables.Nodup
  named : "" ∉ r.boundVariables
  apart : ∀ x ∈ r.boundVariables, x ∉ φ.freeOccurrences

namespace Standardized

/-- `r.freeOccurrences = φ.freeOccurrences`: the free occurrences are kept. -/
theorem freeOccurrences_eq (h : Standardized φ r) : r.freeOccurrences = φ.freeOccurrences :=
  h.alike.freeOccurrences_eq_of_nil

/-- `r.Separated`: the variables of the result are separated. -/
theorem separated (h : Standardized φ r) : r.Separated :=
  ⟨h.nodup, fun x mem => h.freeOccurrences_eq ▸ h.apart x mem⟩

/-- `r.WellFormed leaves`: the result of a well-formed formula is well-formed. -/
theorem wellFormed {leaves : Leaves} (h : Standardized φ r) (wellFormed : φ.WellFormed leaves) :
    r.WellFormed leaves :=
  h.alike.wellFormed wellFormed h.nodup h.named

end Standardized

/-- `Ready [] (.avoiding …)`: at the start nothing is bound, and the free variables are never handed
out. -/
theorem ready_avoiding (naming : Naming) (φ : Formula) :
    Ready [] (.avoiding naming φ.freeVariables) φ.freeOccurrences :=
  ⟨.nil, List.forall_mem_nil _, fun _ mem => .inr (mem_freeVariables.2 mem), fun _ => Nat.zero_le _⟩

/-- `refuses policy []`: under the strict policy the first free variable is refused. -/
theorem find?_refuses_nil (policy : UnboundPolicy) (free : List String) :
    free.find? (refuses policy []) = if policy = .strict then free.head? else none := by
  cases policy with
  | strict =>
    cases free with
    | nil => rfl
    | cons x free => exact List.find?_cons_of_pos rfl
  | permissive => exact List.find?_eq_none.2 fun x _ => by simp [refuses]

/-- Every free variable is listed once. -/
theorem nodup_freeVariables (φ : Formula) : φ.freeVariables.Nodup := nodup_distinct _

/-- The first free variable has the first free occurrence. -/
theorem head?_freeVariables (φ : Formula) : φ.freeVariables.head? = φ.freeOccurrences.head? := by
  rw [freeVariables]
  cases φ.freeOccurrences <;> rfl

/-- `φ.standardize settings` succeeds: a standardized formula has new and different bound variables,
and no variable was refused. -/
theorem standardized_of_standardize {settings : Settings}
    (h : (φ.standardize settings).result = .ok r) :
    Standardized φ r ∧ (settings.unbound = .permissive ∨ φ.freeVariables = []) ∧
      (settings.naming = .unbounded ∨ φ.boundVariables.length ≤
        alphabetSize - (φ.freeVariables.filter fun x => x ∈ letters).length) := by
  have spec := ensures_standardizeIn settings.unbound φ (ready_avoiding settings.naming φ)
  rw [standardize] at h
  obtain ⟨like, issues, accepted⟩ := spec.of_ok h
  refine ⟨⟨like, issues.nodup, issues.named, ?_⟩, ?_, ?_⟩
  · intro x mem free
    exact (issues.of_mem mem).1 (mem_freeVariables.2 free)
  · rw [find?_refuses_nil, ← head?_freeVariables] at accepted
    cases policy : settings.unbound with
    | permissive => exact .inl rfl
    | strict =>
      rw [policy, if_pos rfl, List.head?_eq_none_iff] at accepted
      exact .inr accepted
  -- The letters that are left after the last name cannot be fewer than none.
  · cases naming : settings.naming with
    | unbounded => exact .inl rfl
    | alphabet =>
      rw [naming] at issues
      have size := issues.remaining_eq rfl (Nat.zero_le _)
      rw [VariableSupply.remaining_avoiding,
        VariableSupply.length_filter_letters φ.nodup_freeVariables,
        like.length_boundVariables] at size
      exact .inr (by omega)

/-- `φ.standardize settings` fails: the formula has a free variable that is refused, or more bound
variables than there are letters left. -/
theorem of_standardize_eq_error {settings : Settings}
    (h : (φ.standardize settings).result = .error e) :
    (settings.unbound = .strict ∧ ∃ x, φ.freeVariables.head? = some x ∧ e = .unbound x) ∨
      (settings.naming = .alphabet ∧
        alphabetSize - (φ.freeVariables.filter fun x => x ∈ letters).length <
          φ.boundVariables.length ∧ e = .tooManyVariables alphabetSize) := by
  have spec := ensures_standardizeIn settings.unbound φ (ready_avoiding settings.naming φ)
  rw [standardize] at h
  cases spec.of_error h with
  | unbound first =>
    rw [find?_refuses_nil, ← head?_freeVariables] at first
    split at first
    · next strict => exact .inl ⟨strict, _, first, rfl⟩
    · cases first
  | exhausted alphabet few =>
    rw [VariableSupply.remaining_avoiding,
      VariableSupply.length_filter_letters φ.nodup_freeVariables] at few
    exact .inr ⟨alphabet, few, rfl⟩

/-- `φ.standardize settings` succeeds exactly if no variable is refused and there are enough
names. -/
theorem exists_standardize_iff {settings : Settings} :
    (∃ r, (φ.standardize settings).result = .ok r) ↔
      (settings.unbound = .permissive ∨ φ.freeVariables = []) ∧
        (settings.naming = .unbounded ∨ φ.boundVariables.length ≤
          alphabetSize - (φ.freeVariables.filter fun x => x ∈ letters).length) := by
  constructor
  · rintro ⟨r, h⟩
    exact (standardized_of_standardize h).2
  · rintro ⟨closed, enough⟩
    cases result : (φ.standardize settings).result with
    | ok r => exact ⟨r, rfl⟩
    | error e =>
      -- An error would contradict one of the two conditions.
      rcases of_standardize_eq_error result with ⟨strict, x, first, -⟩ | ⟨alphabet, few, -⟩
      · rcases closed with permissive | none
        · rw [strict] at permissive
          cases permissive
        · rw [none] at first
          cases first
      · rcases enough with unbounded | le
        · rw [alphabet] at unbounded
          cases unbounded
        · omega

end Formula

end ClausalForm
