import ClausalForm.Computation
import ClausalForm.Formula.Validate
import Mathlib.Data.List.Forall2

/-! # Well-formed formulas as a predicate

`Formula.validate` checks a formula from the root to the leaves. The predicate
`Formula.WellFormed` says what it checks for. It has a parameter for the leaves, so that the same
lemmas serve formulas that are checked, formulas in negation normal form and formulas without
functions.

* **`inOrder_map_eq_ok`**: a list of computations succeeds if each of them does; `inOrder_append`
  puts two such lists together.
* **`Formula.validate_eq_ok_iff`**: the check passes exactly for the well-formed formulas.
* **`Formula.exists_combine`**, **`Formula.WellFormed.of_combine`**: connectives that are built from
  well-formed formulas. -/

namespace ClausalForm

/-! ## Computations in order -/

section Computations

variable {ε α β γ : Type}

/-- `x.mapError f` succeeds if `x` does, with the same value. -/
theorem mapError_eq_ok_iff {ε' : Type} {x : Except ε α} {f : ε → ε'} {a : α} :
    x.mapError f = .ok a ↔ x = .ok a := by
  cases x <;> simp [Except.mapError]

/-- `x.mapError f` fails if `x` does, with the error replaced. -/
theorem mapError_eq_error_iff {ε' : Type} {x : Except ε α} {f : ε → ε'} {e : ε'} :
    x.mapError f = .error e ↔ ∃ e', x = .error e' ∧ f e' = e := by
  cases x <;> simp [Except.mapError]

/-- `inOrder (as.map f) = .ok bs`: a list of computations succeeds if each of them does. -/
theorem inOrder_map_eq_ok {f : α → Except ε β} {as : List α} {bs : List β} :
    inOrder (as.map f) = .ok bs ↔ List.Forall₂ (fun a b => f a = .ok b) as bs := by
  induction as generalizing bs with
  | nil => simp [inOrder, pure, Except.pure, eq_comm]
  | cons a as ih =>
    simp only [List.map_cons, inOrder, bind_eq_ok_iff, ih, List.forall₂_cons_left_iff]
    constructor
    · rintro ⟨b, first, cs, rest, same⟩
      exact ⟨b, cs, first, rest, (Except.ok.inj same).symm⟩
    · rintro ⟨b, cs, first, rest, rfl⟩
      exact ⟨b, first, cs, rest, rfl⟩

/-- `inOrder (as.map f) = .ok (as.map g)`: the results of computations `f a` that all return
`g a`. -/
theorem inOrder_map_eq_ok_map {f : α → Except ε β} {g : α → β} {as : List α}
    (each : ∀ a ∈ as, f a = .ok (g a)) : inOrder (as.map f) = .ok (as.map g) := by
  rw [inOrder_map_eq_ok, List.forall₂_map_right_iff, List.forall₂_same]
  exact each

/-- `inOrder (as.map fun a => f <$> g a) = List.map f <$> inOrder (as.map g)`: a function of each
result is a function of the list of results. -/
theorem inOrder_map_map (f : β → γ) (g : α → Except ε β) (as : List α) :
    inOrder (as.map fun a => f <$> g a) = List.map f <$> inOrder (as.map g) := by
  induction as with
  | nil => rfl
  | cons a as ih =>
    rw [List.map_cons, List.map_cons, inOrder, inOrder, ih]
    cases g a with
    | error e => rfl
    | ok b => cases inOrder (as.map g) <;> rfl

/-- `inOrder (as.map f)`: computations that succeed may be replaced by others with the same
results. -/
theorem inOrder_map_of_ok {f g : α → Except ε β} {as : List α} {bs : List β}
    (h : inOrder (as.map f) = .ok bs) (each : ∀ a ∈ as, ∀ b, f a = .ok b → g a = .ok b) :
    inOrder (as.map g) = .ok bs := by
  obtain ⟨length, all⟩ := List.forall₂_iff_zip.1 (inOrder_map_eq_ok.1 h)
  refine inOrder_map_eq_ok.2 (List.forall₂_iff_zip.2 ⟨length, fun mem => ?_⟩)
  exact each _ (List.of_mem_zip mem).1 _ (all mem)

/-- `inOrder (xs ++ ys)`: what succeeds in order may be followed by what succeeds in order. -/
theorem inOrder_append {xs ys : List (Except ε α)} {as bs : List α} (first : inOrder xs = .ok as)
    (second : inOrder ys = .ok bs) : inOrder (xs ++ ys) = .ok (as ++ bs) := by
  induction xs generalizing as with
  | nil =>
    obtain rfl := Except.ok.inj first
    exact second
  | cons x xs ih =>
    obtain ⟨a, found, rest⟩ := bind_eq_ok_iff.1 first
    obtain ⟨as', others, same⟩ := bind_eq_ok_iff.1 rest
    obtain rfl := Except.ok.inj same
    exact bind_eq_ok_iff.2 ⟨a, found, bind_eq_ok_iff.2 ⟨_, ih others, rfl⟩⟩

/-- A list of things that all have something to be related to is related to a list of those. -/
theorem exists_forall₂ {r : α → β → Prop} {as : List α} (each : ∀ a ∈ as, ∃ b, r a b) :
    ∃ bs, List.Forall₂ r as bs := by
  induction as with
  | nil => exact ⟨[], .nil⟩
  | cons a as ih =>
    obtain ⟨b, first⟩ := each a List.mem_cons_self
    obtain ⟨bs, rest⟩ := ih fun c mem => each c (List.mem_cons_of_mem _ mem)
    exact ⟨b :: bs, .cons first rest⟩

/-- `inOrder (as.map f)`: computations that can all be carried out can be carried out in order. -/
theorem exists_inOrder_map {f : α → Except ε β} {r : α → β → Prop} {as : List α}
    (each : ∀ a ∈ as, ∃ b, f a = .ok b ∧ r a b) :
    ∃ bs, inOrder (as.map f) = .ok bs ∧ List.Forall₂ r as bs := by
  obtain ⟨bs, all⟩ := exists_forall₂ each
  exact ⟨bs, inOrder_map_eq_ok.2 (all.imp fun _ _ h => h.1), all.imp fun _ _ h => h.2⟩

/-- What is on the right of a relation of two lists is related to something on the left. -/
theorem forall₂_right {r : α → β → Prop} {as : List α} {bs : List β}
    (all : List.Forall₂ r as bs) {b : β} (mem : b ∈ bs) : ∃ a ∈ as, r a b := by
  induction all with
  | nil => cases mem
  | cons first _ ih =>
    rcases List.mem_cons.1 mem with rfl | rest
    · exact ⟨_, List.mem_cons_self, first⟩
    · obtain ⟨a, ha, h⟩ := ih rest
      exact ⟨a, List.mem_cons_of_mem _ ha, h⟩

/-- What follows from a relation holds of all elements of the list on the right. -/
theorem forall_right_of_forall₂ {r : α → β → Prop} {s : β → Prop} {as : List α} {bs : List β}
    (all : List.Forall₂ r as bs) (each : ∀ a b, r a b → s b) : ∀ b ∈ bs, s b := by
  intro b mem
  obtain ⟨a, _, h⟩ := forall₂_right all mem
  exact each a b h

/-- A list that is related to one with elements has elements. -/
theorem ne_nil_of_forall₂ {r : α → β → Prop} {as : List α} {bs : List β}
    (all : List.Forall₂ r as bs) (some : as ≠ []) : bs ≠ [] := by
  rintro rfl
  exact some (List.forall₂_nil_right_iff.1 all)

/-- `inOrder (as.map f)` has results exactly if each of the computations has one. -/
theorem exists_inOrder_map_iff {f : α → Except ε β} {as : List α} :
    (∃ bs, inOrder (as.map f) = .ok bs) ↔ ∀ a ∈ as, ∃ b, f a = .ok b := by
  constructor
  · rintro ⟨bs, all⟩ a mem
    obtain ⟨b, _, h⟩ := forall₂_right (inOrder_map_eq_ok.1 all).flip mem
    exact ⟨b, h⟩
  · intro each
    obtain ⟨bs, all, _⟩ := exists_inOrder_map (r := fun _ _ => True) fun a mem =>
      (each a mem).imp fun _ h => ⟨h, trivial⟩
    exact ⟨bs, all⟩

/-- `inOrder (as.map f) = .error e`: the error of computations in order is that of one of them. -/
theorem exists_of_inOrder_map_eq_error {f : α → Except ε β} {as : List α} {e : ε}
    (failed : inOrder (as.map f) = .error e) : ∃ a ∈ as, f a = .error e := by
  induction as with
  | nil => cases failed
  | cons a as ih =>
    rw [List.exists_mem_cons_iff]
    rw [List.map_cons, inOrder] at failed
    cases first : f a with
    | error e' =>
      rw [first] at failed
      exact .inl (congrArg Except.error (Except.error.inj failed))
    | ok b =>
      -- The first computation succeeds, so the error comes from the others.
      rw [first] at failed
      cases rest : inOrder (as.map f) with
      | error e' =>
        rw [rest] at failed ih
        exact .inr (ih failed)
      | ok bs =>
        rw [rest] at failed
        cases failed

/-- What some element of a list has, some element of a related list has. -/
theorem exists_mem_iff_of_forall₂ {r : α → β → Prop} {p : α → Prop} {s : β → Prop} {as : List α}
    {bs : List β} (all : List.Forall₂ r as bs) (same : ∀ a b, r a b → (p a ↔ s b)) :
    (∃ a ∈ as, p a) ↔ ∃ b ∈ bs, s b := by
  induction all with
  | nil => simp
  | cons first _ ih => rw [List.exists_mem_cons_iff, List.exists_mem_cons_iff, same _ _ first, ih]

/-- What all elements of a list have, all elements of a related list have. -/
theorem forall_mem_iff_of_forall₂ {r : α → β → Prop} {p : α → Prop} {s : β → Prop} {as : List α}
    {bs : List β} (all : List.Forall₂ r as bs) (same : ∀ a b, r a b → (p a ↔ s b)) :
    (∀ a ∈ as, p a) ↔ ∀ b ∈ bs, s b := by
  induction all with
  | nil => simp
  | cons first _ ih => rw [List.forall_mem_cons, List.forall_mem_cons, same _ _ first, ih]

/-- `as.flatMap f`: if each element of a list contributes something, no fewer elements are
collected. -/
theorem length_le_length_flatMap {f : α → List β} {as : List α} (each : ∀ a ∈ as, f a ≠ []) :
    as.length ≤ (as.flatMap f).length := by
  induction as with
  | nil => exact Nat.zero_le _
  | cons a as ih =>
    obtain ⟨first, others⟩ := List.forall_mem_cons.1 each
    have rest := ih others
    have some := List.length_pos_iff.2 first
    rw [List.flatMap_cons, List.length_append, List.length_cons]
    omega

/-- `acceptAll refused report needs a`: the value `a`, unless one of its `needs` is `refused`; the
first such one is what `report` tells of. -/
def acceptAll {ε α ν : Type} (refused : ν → Bool) (report : ν → ε) (needs : List ν) (a : α) :
    Except ε α :=
  match needs.find? refused with
  | none => .ok a
  | some n => .error (report n)

section AcceptAll

variable {ν : Type} {refused : ν → Bool} {report : ν → ε}

/-- `f <$> acceptAll … a = acceptAll … (f a)`: a function of the value does not change what is
refused. -/
theorem map_acceptAll (f : α → β) (needs : List ν) (a : α) :
    f <$> acceptAll refused report needs a = acceptAll refused report needs (f a) := by
  unfold acceptAll
  cases needs.find? refused <;> rfl

/-- Several values have the needs of all of them, `as.flatMap needs`, and the first one that is
refused is reported. -/
theorem inOrder_acceptAll (needs : α → List ν) (value : α → β) (as : List α) :
    inOrder (as.map fun a => acceptAll refused report (needs a) (value a)) =
      acceptAll refused report (as.flatMap needs) (as.map value) := by
  induction as with
  | nil => rfl
  | cons a as ih =>
    rw [List.map_cons, inOrder, ih, List.flatMap_cons, List.map_cons]
    -- What is refused first is found in the first element, if there is something in it.
    unfold acceptAll
    rw [List.find?_append]
    cases (needs a).find? refused with
    | some n => rfl
    | none => cases (as.flatMap needs).find? refused <;> rfl

end AcceptAll

end Computations

/-! ## Lists of variables -/

/-- `distinct xs = xs`: a list without repetitions is left as it is. -/
theorem distinct_eq_self_iff {xs : List String} : distinct xs = xs ↔ xs.Nodup := by
  refine ⟨fun same => same ▸ nodup_distinct xs, fun nodup => ?_⟩
  -- The first element is not repeated, so that nothing is filtered out behind it.
  induction xs with
  | nil => rfl
  | cons x xs ih =>
    obtain ⟨fresh, rest⟩ := List.nodup_cons.1 nodup
    rw [distinct, ih rest, List.filter_eq_self.2]
    intro y mem
    rw [decide_eq_true_eq]
    rintro rfl
    exact fresh mem

/-- `distinct xs ≠ []`: only the empty list has no element that counts. -/
theorem distinct_ne_nil {xs : List String} (some : xs ≠ []) : distinct xs ≠ [] := by
  cases xs with
  | nil => exact absurd rfl some
  | cons x xs => exact List.cons_ne_nil _ _

/-- `IsBinder xs`: what a quantifier may bind, which is at least one variable, each a name that is
not empty, none twice. -/
structure IsBinder (xs : List String) : Prop where
  some : xs ≠ []
  nodup : xs.Nodup
  named : "" ∉ xs

/-- `IsBinder (distinct xs)`: the distinct variables of a list may be bound. -/
theorem IsBinder.of_distinct {xs : List String} (some : xs ≠ []) (named : "" ∉ xs) :
    IsBinder (distinct xs) :=
  ⟨distinct_ne_nil some, nodup_distinct xs, by rwa [mem_distinct]⟩

/-- `IsBinder (distinct (xs ++ ys))`: the variables of two quantifiers may be bound together. -/
theorem IsBinder.union {xs ys : List String} (left : IsBinder xs) (right : IsBinder ys) :
    IsBinder (distinct (xs ++ ys)) :=
  .of_distinct (by simp [left.some]) (by simp [left.named, right.named])

/-! ## The predicate -/

/-- What the leaves of a formula may be, which differs from stage to stage of the normalization. -/
structure Leaves where
  /-- The atoms that may be used. -/
  atom : Atom → Prop
  /-- Whether formulas other than atoms may be negated. -/
  compound : Prop
  /-- Variables are not among what counts. -/
  rename : ∀ {a : Atom} (f : String → String), atom a → atom (a.rename f)

/-- `Leaves.named`: every predicate has a name. -/
def Leaves.named : Leaves where
  atom a := a.predicate ≠ ""
  compound := True
  rename _ h := h

namespace Formula

/-- **Well-formed formulas.** `φ.WellFormed leaves`: every connective has at least two members and
none of its own kind, every quantifier binds distinct variables, and the leaves are as they may
be. -/
inductive WellFormed (leaves : Leaves) : Formula → Prop
  | atom {a : Atom} (allowed : leaves.atom a) : WellFormed leaves (.atom a)
  | not {φ : Formula} (allowed : φ.isAtom = true ∨ leaves.compound)
      (body : WellFormed leaves φ) : WellFormed leaves (.not φ)
  | connective {op : Connective} {φs : List Formula} (two : 2 ≤ φs.length)
      (flat : ∀ φ ∈ φs, φ.isConnective op = false) (members : ∀ φ ∈ φs, WellFormed leaves φ) :
      WellFormed leaves (.connective op φs)
  | quantified {q : Quantifier} {xs : List String} {φ : Formula} (binder : IsBinder xs)
      (body : WellFormed leaves φ) : WellFormed leaves (.quantified q xs φ)

section Inversion

variable {leaves : Leaves} {a : Atom} {op : Connective} {q : Quantifier} {xs : List String}
  {φ : Formula} {φs : List Formula}

/-- Well-formed atoms. -/
theorem wellFormed_atom_iff : (Formula.atom a).WellFormed leaves ↔ leaves.atom a := by
  constructor
  · rintro ⟨allowed⟩
    exact allowed
  · exact .atom

/-- Well-formed negations. -/
theorem wellFormed_not_iff :
    φ.not.WellFormed leaves ↔ (φ.isAtom = true ∨ leaves.compound) ∧ φ.WellFormed leaves := by
  constructor
  · intro h
    cases h with
    | not allowed body => exact ⟨allowed, body⟩
  · rintro ⟨allowed, body⟩
    exact .not allowed body

/-- Well-formed connectives. -/
theorem wellFormed_connective_iff : (Formula.connective op φs).WellFormed leaves ↔
    2 ≤ φs.length ∧ (∀ φ ∈ φs, φ.isConnective op = false) ∧ ∀ φ ∈ φs, φ.WellFormed leaves := by
  constructor
  · intro h
    cases h with
    | connective two flat members => exact ⟨two, flat, members⟩
  · rintro ⟨two, flat, members⟩
    exact .connective two flat members

/-- Well-formed quantifiers. -/
theorem wellFormed_quantified_iff :
    (Formula.quantified q xs φ).WellFormed leaves ↔ IsBinder xs ∧ φ.WellFormed leaves := by
  constructor
  · intro h
    cases h with
    | quantified binder body => exact ⟨binder, body⟩
  · rintro ⟨binder, body⟩
    exact .quantified binder body

end Inversion

/-- `φ.validate = .ok ()`: the check passes exactly for the well-formed formulas all of whose
predicates have a name. -/
theorem validate_eq_ok_iff {φ : Formula} : φ.validate = .ok () ↔ φ.WellFormed .named := by
  induction φ using induction with
  | atom a =>
    rw [validate, guarded_eq_ok_iff, wellFormed_atom_iff]
    exact and_iff_left rfl
  | not φ ih =>
    rw [validate, ih, wellFormed_not_iff]
    exact (and_iff_right (.inr trivial)).symm
  | connective op φs ih =>
    have members : (∃ us, inOrder (φs.map validate) = .ok us) ↔
        ∀ φ ∈ φs, φ.WellFormed .named := by
      rw [exists_inOrder_map_iff]
      refine forall₂_congr ?_
      intro φ mem
      rw [← ih φ mem]
      -- A check that passes returns nothing that could differ.
      exact ⟨fun passed => passed.choose_spec, fun passed => ⟨(), passed⟩⟩
    rw [validate, guarded_eq_ok_iff, guarded_eq_ok_iff, wellFormed_connective_iff, ← members,
      Nat.not_lt, Bool.not_eq_true, List.any_eq_false, bind_eq_ok_iff]
    simp [pure, Except.pure]
  | quantified q xs φ ih =>
    rw [validate, guarded_eq_ok_iff, guarded_eq_ok_iff, wellFormed_quantified_iff, ← ih, not_or,
      ne_eq, Classical.not_not, distinct_eq_self_iff, ← and_assoc]
    exact and_congr_left fun _ =>
      ⟨fun h => ⟨h.1, h.2.1, h.2.2⟩, fun h => ⟨h.some, h.nodup, h.named⟩⟩

variable {leaves : Leaves}

/-- `φ.WellFormed leaves`: the leaves may be judged less strictly. -/
theorem WellFormed.mono {stricter : Leaves} {φ : Formula} (h : φ.WellFormed stricter)
    (atom : ∀ a, stricter.atom a → leaves.atom a) (compound : stricter.compound → leaves.compound) :
    φ.WellFormed leaves := by
  induction h with
  | atom allowed => exact .atom (atom _ allowed)
  | not allowed _ ih => exact .not (allowed.imp_right compound) ih
  | connective two flat _ ih => exact .connective two flat ih
  | quantified binder _ ih => exact .quantified binder ih

/-- `φ.Populated leaves`: every connective has a member and every quantifier something to bind, but
a member may be of the kind of its connective, or the only one. -/
inductive Populated (leaves : Leaves) : Formula → Prop
  | atom {a : Atom} (allowed : leaves.atom a) : Populated leaves (.atom a)
  | not {φ : Formula} (allowed : φ.isAtom = true ∨ leaves.compound) (body : Populated leaves φ) :
      Populated leaves (.not φ)
  | connective {op : Connective} {φs : List Formula} (some : φs ≠ [])
      (members : ∀ φ ∈ φs, Populated leaves φ) : Populated leaves (.connective op φs)
  | quantified {q : Quantifier} {xs : List String} {φ : Formula} (binder : IsBinder xs)
      (body : Populated leaves φ) : Populated leaves (.quantified q xs φ)

/-- Well-formed formulas have no empty connectives. -/
theorem WellFormed.populated {φ : Formula} (h : φ.WellFormed leaves) : φ.Populated leaves := by
  induction h with
  | atom allowed => exact .atom allowed
  | not allowed _ ih => exact .not allowed ih
  | connective two _ _ ih =>
    refine .connective ?_ ih
    intro none
    rw [none, List.length_nil] at two
    omega
  | quantified binder _ ih => exact .quantified binder ih

/-! ## Building connectives and quantifiers -/

/-- `φ.membersOf op = [φ]`: a formula that is not of the kind of a connective is a member of its
own. -/
theorem membersOf_of_not {op : Connective} {φ : Formula} (other : φ.isConnective op = false) :
    φ.membersOf op = [φ] := by
  cases φ with
  | connective op' φs =>
    rw [membersOf, if_neg]
    simpa [isConnective] using other
  | _ => rfl

/-- `spliced op φs = φs`: members none of which is of the kind of the connective are left as they
are. -/
theorem spliced_of_flat {op : Connective} {φs : List Formula}
    (flat : ∀ φ ∈ φs, φ.isConnective op = false) : spliced op φs = φs := by
  induction φs with
  | nil => rfl
  | cons φ φs ih =>
    rw [spliced, List.flatMap_cons, membersOf_of_not (flat φ List.mem_cons_self)]
    exact congrArg (φ :: ·) (ih fun ψ mem => flat ψ (List.mem_cons_of_mem _ mem))

/-- `ψ ∈ φ.membersOf op`: what a formula contributes to a connective is one of its members, if it is
of the same kind, and otherwise the formula itself. -/
theorem of_mem_membersOf {op : Connective} {φ ψ : Formula} (mem : ψ ∈ φ.membersOf op) :
    (∃ φs, φ = .connective op φs ∧ ψ ∈ φs) ∨ φ.isConnective op = false ∧ ψ = φ := by
  by_cases same : φ.isConnective op = true
  · cases φ with
    | connective op' φs =>
      obtain rfl : op' = op := by simpa [isConnective] using same
      rw [membersOf, if_pos rfl] at mem
      exact .inl ⟨φs, rfl, mem⟩
    | _ => cases same
  · have other := (Bool.not_eq_true _).mp same
    rw [membersOf_of_not other, List.mem_singleton] at mem
    exact .inr ⟨other, mem⟩

/-- `φ.membersOf op ≠ []`: nothing is contributed only by a connective without members. -/
theorem membersOf_ne_nil {op : Connective} {φ : Formula} (some : φ ≠ .connective op []) :
    φ.membersOf op ≠ [] := by
  cases φ with
  | connective op' φs =>
    rw [membersOf]
    split
    · next same =>
      rintro rfl
      exact some (same ▸ rfl)
    · exact List.cons_ne_nil _ _
  | _ => exact List.cons_ne_nil _ _

/-- `ψ ∈ φ.membersOf op`: what a well-formed formula contributes to a connective is well-formed, and
flat. -/
theorem WellFormed.of_mem_membersOf {op : Connective} {φ ψ : Formula} (h : φ.WellFormed leaves)
    (mem : ψ ∈ φ.membersOf op) : ψ.WellFormed leaves ∧ ψ.isConnective op = false := by
  rcases Formula.of_mem_membersOf mem with ⟨φs, rfl, member⟩ | ⟨other, rfl⟩
  · cases h with
    | connective _ flat members => exact ⟨members ψ member, flat ψ member⟩
  · exact ⟨h, other⟩

/-- `φs.length ≤ (spliced op φs).length`: splicing well-formed formulas leaves no fewer members. -/
theorem le_length_spliced (op : Connective) {φs : List Formula}
    (members : ∀ φ ∈ φs, φ.WellFormed leaves) : φs.length ≤ (spliced op φs).length :=
  length_le_length_flatMap fun φ mem => membersOf_ne_nil <| by
    rintro rfl
    cases members _ mem with
    | connective two => simp at two

/-- `ψ ∈ spliced op φs`: spliced members are well-formed, and flat. -/
theorem WellFormed.of_mem_spliced {op : Connective} {φs : List Formula} {ψ : Formula}
    (members : ∀ φ ∈ φs, φ.WellFormed leaves) (mem : ψ ∈ spliced op φs) :
    ψ.WellFormed leaves ∧ ψ.isConnective op = false := by
  obtain ⟨φ, hφ, hψ⟩ := List.mem_flatMap.1 mem
  exact (members φ hφ).of_mem_membersOf hψ

/-- `combine op φs`: a connective of two or more members after splicing. -/
theorem combine_of_two {op : Connective} {φs : List Formula} (two : 2 ≤ (spliced op φs).length) :
    combine op φs = .ok (.connective op (spliced op φs)) := by
  unfold combine
  split
  · next none => rw [none] at two; simp at two
  · next one => rw [one] at two; simp at two
  · rfl

/-- `combine op φs`: two or more well-formed formulas build a connective. -/
theorem combine_of_wellFormed (op : Connective) {φs : List Formula} (two : 2 ≤ φs.length)
    (members : ∀ φ ∈ φs, φ.WellFormed leaves) :
    combine op φs = .ok (.connective op (spliced op φs)) :=
  combine_of_two (Nat.le_trans two (le_length_spliced op members))

/-- `combine op φs`: a connective can be built from any well-formed formulas but none. -/
theorem exists_combine (op : Connective) {φs : List Formula} (some : φs ≠ [])
    (members : ∀ φ ∈ φs, φ.WellFormed leaves) : ∃ ψ, combine op φs = .ok ψ := by
  cases built : combine op φs with
  | ok ψ => exact ⟨ψ, rfl⟩
  | error e =>
    have le := le_length_spliced op members
    rw [(combine_eq_error_iff.1 built).1, List.length_nil, Nat.le_zero,
      List.length_eq_zero_iff] at le
    exact absurd le some

/-- `combine op φs = .ok ψ`: what is built from well-formed formulas is well-formed. -/
theorem WellFormed.of_combine {op : Connective} {φs : List Formula} {ψ : Formula}
    (members : ∀ φ ∈ φs, φ.WellFormed leaves) (built : combine op φs = .ok ψ) :
    ψ.WellFormed leaves := by
  rcases spliced_of_combine built with one | ⟨two, rfl⟩
  · have mem : ψ ∈ spliced op φs := by rw [one]; exact List.mem_cons_self
    exact (WellFormed.of_mem_spliced members mem).1
  · exact .connective two (fun _ mem => (WellFormed.of_mem_spliced members mem).2)
      fun _ mem => (WellFormed.of_mem_spliced members mem).1

/-- `combine op φs = .ok (.connective op φs)`: a well-formed connective is built from its
members. -/
theorem WellFormed.combine_eq {op : Connective} {φs : List Formula}
    (h : (Formula.connective op φs).WellFormed leaves) :
    combine op φs = .ok (.connective op φs) := by
  cases h with
  | connective two flat =>
    have same := spliced_of_flat flat
    rw [combine_of_two (by rwa [same]), same]

/-- `quantify q xs φ`: a quantifier over some variables is built as one. -/
theorem quantify_of_ne_nil {q : Quantifier} {xs : List String} {φ : Formula} (some : xs ≠ []) :
    quantify q xs φ = .quantified q (distinct xs) φ := by
  unfold quantify
  split
  · next none => exact absurd none (distinct_ne_nil some)
  · rfl

/-- `quantify q xs φ`: a quantifier over variables that may be bound is built as it is. -/
theorem quantify_of_isBinder {q : Quantifier} {xs : List String} {φ : Formula}
    (binder : IsBinder xs) : quantify q xs φ = .quantified q xs φ := by
  rw [quantify_of_ne_nil binder.some, distinct_eq_self_iff.2 binder.nodup]

end Formula

end ClausalForm
