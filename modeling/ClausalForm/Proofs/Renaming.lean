import ClausalForm.Proofs.Separation
import ClausalForm.Proofs.Truth

/-! # Renaming of free variables

`Formula.rename` replaces the free occurrences of variables. If no new name is bound inside the
formula, nothing is captured: the renamed formula says of the new names what the formula says of
the old ones.

* **`Formula.RenamesFreely`**: no new name is bound inside the formula.
* **`Formula.freeOccurrences_rename`**: the free occurrences of a renamed formula.
* **`Formula.holds_rename`**: the truth of a renamed formula.
* **`Formula.rename_substitutes`**: renaming is substitution.
* **`Formula.holds_quantified_rename`**: the variables of a quantifier renamed along with its body,
  onto a list that may be longer. -/

namespace ClausalForm

namespace Renaming

variable {m : Renaming} {x y : String} {xs ys : List String}

/-- `((x, y) :: m).rename x = y`: the first pair renames its name. -/
theorem rename_cons_self (x y : String) (m : Renaming) :
    Renaming.rename ((x, y) :: m) x = y := by
  simp [rename]

/-- `((a, b) :: m).rename x = m.rename x`: the first pair leaves other names to the rest. -/
theorem rename_cons_of_ne {a b : String} (other : x ≠ a) :
    Renaming.rename ((a, b) :: m) x = m.rename x := by
  rw [rename, rename, List.lookup_cons, beq_false_of_ne other]

/-- The pair of a name that is renamed. -/
theorem mem_of_mem_fst (mem : x ∈ m.map Prod.fst) : (x, m.rename x) ∈ m := by
  induction m with
  | nil => cases mem
  | cons p m ih =>
    obtain ⟨a, b⟩ := p
    by_cases same : x = a
    · subst same
      rw [rename_cons_self]
      exact List.mem_cons_self
    · have rest : x ∈ m.map Prod.fst := by simpa [same] using mem
      rw [rename_cons_of_ne same]
      exact List.mem_cons_of_mem _ (ih rest)

/-- `m.rename x = x`: a name without a pair is kept. -/
theorem rename_of_not_mem (fresh : x ∉ m.map Prod.fst) : m.rename x = x := by
  induction m with
  | nil => rfl
  | cons p m ih =>
    obtain ⟨a, b⟩ := p
    rw [List.map_cons, List.mem_cons, not_or] at fresh
    rw [rename_cons_of_ne fresh.1, ih fresh.2]

/-- `m.lookup x`: the names with a pair are those that are looked up successfully. -/
theorem lookup_eq (m : Renaming) (x : String) :
    m.lookup x = if x ∈ m.map Prod.fst then some (m.rename x) else none := by
  induction m with
  | nil => rfl
  | cons p m ih =>
    obtain ⟨a, b⟩ := p
    by_cases same : x = a
    · subst same
      simp [rename]
    · rw [rename_cons_of_ne same, List.lookup_cons, beq_false_of_ne same, ih]
      by_cases mem : x ∈ m.map Prod.fst <;> simp [same, mem]

/-- A name that is looked up successfully has a pair. -/
theorem mem_of_lookup_eq_some (found : m.lookup x = some y) : (x, y) ∈ m := by
  rw [lookup_eq] at found
  split at found
  · next mem => exact Option.some.inj found ▸ mem_of_mem_fst mem
  · cases found

/-- `(m.without xs).lookup x`: what is left out of a renaming has no pair, the rest is looked up as
before. -/
theorem lookup_without (m : Renaming) (xs : List String) (x : String) :
    (m.without xs).lookup x = if x ∈ xs then none else m.lookup x := by
  induction m with
  | nil => exact (ite_self none).symm
  | cons p m ih =>
    obtain ⟨a, b⟩ := p
    rw [without] at ih ⊢
    by_cases inside : a ∈ xs
    · rw [List.filter_cons_of_neg (by simp [inside]), ih]
      by_cases out : x ∈ xs
      · rw [if_pos out, if_pos out]
      · -- The pair that is left out is not for `x`.
        have other : x ≠ a := by
          rintro rfl
          exact out inside
        rw [if_neg out, if_neg out, List.lookup_cons, beq_false_of_ne other]
    · rw [List.filter_cons_of_pos (by simp [inside]), List.lookup_cons, List.lookup_cons, ih]
      by_cases same : x = a
      · subst same
        simp [inside]
      · rw [beq_false_of_ne same]

/-- `(m.without xs).rename x`: what is left out of a renaming is kept, the rest renamed as
before. -/
theorem rename_without (m : Renaming) (xs : List String) (x : String) :
    (m.without xs).rename x = if x ∈ xs then x else m.rename x := by
  rw [rename, lookup_without]
  split <;> rfl

/-- What is looked up in a part of a renaming is looked up in all of it. -/
theorem lookup_of_lookup_without (found : (m.without xs).lookup x = some y) :
    m.lookup x = some y := by
  rw [lookup_without] at found
  split at found
  · cases found
  · exact found

/-- `p ∈ ofPlaces xs ys`: the pairs of a renaming by places. -/
theorem mem_ofPlaces {p : String × String} : p ∈ ofPlaces xs ys ↔ p ∈ xs.zip ys :=
  List.mem_reverse

/-- `p ∈ ofPlaces xs ys`: a renaming by places renames onto the second list only. -/
theorem snd_mem_of_mem_ofPlaces {p : String × String} (mem : p ∈ ofPlaces xs ys) : p.2 ∈ ys :=
  (List.of_mem_zip (mem_ofPlaces.1 mem)).2

/-- Every name of the first list is renamed, if the second one is long enough. -/
theorem mem_fst_ofPlaces (le : xs.length ≤ ys.length) :
    x ∈ (ofPlaces xs ys).map Prod.fst ↔ x ∈ xs := by
  rw [ofPlaces, List.map_reverse, List.mem_reverse, List.map_fst_zip le]

/-- `(ofPlaces xs ys).rename x ∈ ys`: names of the first list are renamed to names of the second
one. -/
theorem rename_ofPlaces_mem (le : xs.length ≤ ys.length) (mem : x ∈ xs) :
    (ofPlaces xs ys).rename x ∈ ys :=
  snd_mem_of_mem_ofPlaces (mem_of_mem_fst ((mem_fst_ofPlaces le).2 mem))

/-- `(ofPlaces xs ys).rename x = x`: names outside of the first list are kept. -/
theorem rename_ofPlaces_of_not_mem (le : xs.length ≤ ys.length) (fresh : x ∉ xs) :
    (ofPlaces xs ys).rename x = x :=
  rename_of_not_mem fun mem => fresh ((mem_fst_ofPlaces le).1 mem)

/-- In a list without repetitions each element is paired with one element only. -/
theorem eq_of_mem_zip (nodup : ys.Nodup) {x x' y : String} (first : (x, y) ∈ xs.zip ys)
    (second : (x', y) ∈ xs.zip ys) : x = x' := by
  induction xs generalizing ys with
  | nil => simp at first
  | cons a xs ih =>
    cases ys with
    | nil => simp at first
    | cons b ys =>
      obtain ⟨fresh, rest⟩ := List.nodup_cons.1 nodup
      simp only [List.zip_cons_cons, List.mem_cons, Prod.mk.injEq] at first second
      rcases first with ⟨rfl, rfl⟩ | first
      · rcases second with ⟨rfl, -⟩ | second
        · rfl
        · exact absurd (List.of_mem_zip second).2 fresh
      · rcases second with ⟨-, rfl⟩ | second
        · exact absurd (List.of_mem_zip first).2 fresh
        · exact ih rest first second

/-- `(ofPlaces xs ys).rename` is injective on `xs`, if `ys` has no repetitions. -/
theorem rename_ofPlaces_inj (le : xs.length ≤ ys.length) (nodup : ys.Nodup) {x x' : String}
    (mem : x ∈ xs) (mem' : x' ∈ xs)
    (same : (ofPlaces xs ys).rename x = (ofPlaces xs ys).rename x') : x = x' := by
  have first := mem_ofPlaces.1 (mem_of_mem_fst ((mem_fst_ofPlaces le).2 mem))
  have second := mem_ofPlaces.1 (mem_of_mem_fst ((mem_fst_ofPlaces le).2 mem'))
  rw [← same] at second
  exact eq_of_mem_zip nodup first second

end Renaming

/-! ## Terms and atoms -/

variable {D : Type} {S : Structure D}

/-- `(t.rename f).value S v = t.value S (v ∘ f)`: the value of a renamed term. -/
theorem Term.value_rename (f : String → String) (v : Valuation D) (t : Term) :
    (t.rename f).value S v = t.value S (v ∘ f) := by
  match t with
  | .var x => simp [rename, value]
  | .app g ts =>
    simp only [rename, value, List.map_map]
    congr 1
    exact List.map_congr_left fun t _ => value_rename f v t

/-- `(t.rename f).occurrences = t.occurrences.map f`: the variables of a renamed term. -/
theorem Term.occurrences_rename (f : String → String) (t : Term) :
    (t.rename f).occurrences = t.occurrences.map f := by
  match t with
  | .var x => simp [rename, occurrences]
  | .app g ts =>
    simp only [rename, occurrences, List.flatMap_map, List.map_flatMap]
    exact List.flatMap_congr fun t _ => occurrences_rename f t

/-- `(t.rename f).rename g`: renaming twice is renaming once. -/
theorem Term.rename_rename {f g h : String → String} {t : Term}
    (agree : ∀ x ∈ t.occurrences, g (f x) = h x) : (t.rename f).rename g = t.rename h := by
  match t with
  | .var x => rw [rename, rename, rename, agree x (by simp [occurrences])]
  | .app c ts =>
    rw [rename, rename, rename, List.map_map]
    congr 1
    refine List.map_congr_left fun t mem => Term.rename_rename fun x hx => agree x ?_
    rw [occurrences]
    exact List.mem_flatMap.2 ⟨t, mem, hx⟩

/-- Renaming every variable to itself changes nothing. -/
theorem Term.rename_id (t : Term) : t.rename id = t := by
  match t with
  | .var x => rw [rename, id]
  | .app g ts =>
    rw [rename]
    congr 1
    exact (List.map_congr_left fun t _ => Term.rename_id t).trans (List.map_id ts)

/-- `(a.rename f).Holds S v ↔ a.Holds S (v ∘ f)`: the truth of a renamed atom. -/
theorem Atom.holds_rename (f : String → String) (v : Valuation D) (a : Atom) :
    (a.rename f).Holds S v ↔ a.Holds S (v ∘ f) := by
  have same : (a.rename f).args.map (Term.value S v) = a.args.map (Term.value S (v ∘ f)) := by
    rw [rename, List.map_map]
    exact List.map_congr_left fun t _ => Term.value_rename f v t
  rw [Holds, Holds, same, rename]

/-- `(a.rename f).occurrences = a.occurrences.map f`: the variables of a renamed atom. -/
theorem Atom.occurrences_rename (f : String → String) (a : Atom) :
    (a.rename f).occurrences = a.occurrences.map f := by
  rw [occurrences, occurrences, rename, List.flatMap_map, List.map_flatMap]
  exact List.flatMap_congr fun t _ => Term.occurrences_rename f t

/-- Renaming twice is renaming once. -/
theorem Atom.rename_rename {f g h : String → String} {a : Atom}
    (agree : ∀ x ∈ a.occurrences, g (f x) = h x) : (a.rename f).rename g = a.rename h := by
  rw [rename, rename, rename, List.map_map]
  congr 1
  exact List.map_congr_left fun t mem =>
    Term.rename_rename fun x hx => agree x (List.mem_flatMap.2 ⟨t, mem, hx⟩)

/-- Renaming every variable to itself changes nothing. -/
theorem Atom.rename_id (a : Atom) : a.rename id = a := by
  rw [rename, List.map_id'' Term.rename_id]

namespace Formula

/-! ## Formulas -/

/-- `(φ.rename m).boundVariables`: renaming leaves the bound variables alone. -/
@[simp] theorem boundVariables_rename (m : Renaming) (φ : Formula) :
    (φ.rename m).boundVariables = φ.boundVariables := by
  induction φ using induction generalizing m with
  | atom a => rw [rename, boundVariables_atom, boundVariables_atom]
  | not φ ih => rw [rename, boundVariables_not, boundVariables_not, ih]
  | connective op φs ih =>
    rw [rename, boundVariables_connective, boundVariables_connective, List.flatMap_map]
    exact List.flatMap_congr fun φ mem => ih φ mem m
  | quantified q xs φ ih => rw [rename, boundVariables_quantified, boundVariables_quantified, ih]

/-- Renaming leaves the kind of a connective alone. -/
@[simp] theorem isConnective_rename (m : Renaming) (op : Connective) (φ : Formula) :
    (φ.rename m).isConnective op = φ.isConnective op := by
  cases φ <;> simp [rename, isConnective]

/-- Renaming leaves atoms and other formulas what they are. -/
@[simp] theorem isAtom_rename (m : Renaming) (φ : Formula) :
    (φ.rename m).isAtom = φ.isAtom := by
  cases φ <;> simp [rename, isAtom]

/-- `(φ.rename m).WellFormed leaves`: a renamed formula is well-formed. -/
theorem WellFormed.rename {leaves : Leaves} {φ : Formula} (h : φ.WellFormed leaves)
    (m : Renaming) : (φ.rename m).WellFormed leaves := by
  induction h generalizing m with
  | atom allowed => rw [Formula.rename]; exact .atom (leaves.rename _ allowed)
  | not allowed _ ih => rw [Formula.rename]; exact .not (by rwa [isAtom_rename]) (ih m)
  | connective two flat _ ih =>
    rw [Formula.rename]
    refine .connective (by rwa [List.length_map]) ?_ ?_
    · intro ψ mem
      obtain ⟨φ, hφ, rfl⟩ := List.mem_map.1 mem
      rw [isConnective_rename, flat φ hφ]
    · intro ψ mem
      obtain ⟨φ, hφ, rfl⟩ := List.mem_map.1 mem
      exact ih φ hφ m
  | quantified binder _ ih => rw [Formula.rename]; exact .quantified binder (ih _)

/-- **Renaming without capture.** `RenamesFreely m φ`: no new name of the renaming is bound in the
formula. -/
def RenamesFreely (m : Renaming) (φ : Formula) : Prop :=
  ∀ x y, m.lookup x = some y → y ∉ φ.boundVariables

namespace RenamesFreely

variable {m : Renaming} {φ : Formula}

/-- Names that are not bound may be new names. -/
theorem of_forall_mem (unbound : ∀ p ∈ m, p.2 ∉ φ.boundVariables) : RenamesFreely m φ :=
  fun x y found => unbound (x, y) (Renaming.mem_of_lookup_eq_some found)

/-- What is bound in a negation is bound in its body. -/
theorem body_not (free : RenamesFreely m (.not φ)) : RenamesFreely m φ := by
  rwa [RenamesFreely, boundVariables_not] at free

/-- What is bound in a member is bound in the connective. -/
theorem member {op : Connective} {φs : List Formula}
    (free : RenamesFreely m (.connective op φs)) (mem : φ ∈ φs) : RenamesFreely m φ := by
  intro x y found bound
  refine free x y found ?_
  rw [boundVariables_connective]
  exact List.mem_flatMap.2 ⟨φ, mem, bound⟩

/-- `RenamesFreely (m.without xs) φ`: the renaming that a quantifier leaves to its body renames it
freely. -/
theorem body {q : Quantifier} {xs : List String} (free : RenamesFreely m (.quantified q xs φ)) :
    RenamesFreely (m.without xs) φ := by
  intro x y found bound
  refine free x y (Renaming.lookup_of_lookup_without found) ?_
  rw [boundVariables_quantified]
  exact List.mem_append_right xs bound

/-- `m.rename x ∉ xs`: a variable that a quantifier does not bind is renamed to one that it does not
bind. -/
theorem rename_not_mem {q : Quantifier} {xs : List String} {x : String}
    (free : RenamesFreely m (.quantified q xs φ)) (outside : x ∉ xs) : m.rename x ∉ xs := by
  rw [Renaming.rename]
  cases found : m.lookup x with
  | none => exact outside
  | some y =>
    intro mem
    refine free x y found ?_
    rw [boundVariables_quantified]
    exact List.mem_append_left _ mem

end RenamesFreely

/-- `(φ.rename m).freeOccurrences = φ.freeOccurrences.map m.rename`: the free occurrences in a
renamed formula are the new names of those in the formula. -/
theorem freeOccurrences_rename {φ : Formula} {m : Renaming} (free : RenamesFreely m φ) :
    (φ.rename m).freeOccurrences = φ.freeOccurrences.map m.rename := by
  induction φ using induction generalizing m with
  | atom a =>
    rw [rename, freeOccurrences_atom, freeOccurrences_atom, Atom.occurrences_rename]
  | not φ ih => rw [rename, freeOccurrences_not, freeOccurrences_not, ih free.body_not]
  | connective op φs ih =>
    rw [rename, freeOccurrences_connective, freeOccurrences_connective, List.flatMap_map,
      List.map_flatMap]
    exact List.flatMap_congr fun φ mem => ih φ mem (free.member mem)
  | quantified q xs φ ih =>
    rw [rename, freeOccurrences, freeOccurrences, ih free.body, List.filter_map]
    -- A bound variable is not renamed, and no other one is renamed to it.
    have kept : ∀ x, (m.without xs).rename x ∈ xs ↔ x ∈ xs := by
      intro x
      rw [m.rename_without]
      by_cases mem : x ∈ xs
      · rw [if_pos mem]
      · rw [if_neg mem]
        exact iff_of_false (free.rename_not_mem mem) mem
    have same : (fun x => !xs.contains x) ∘ (m.without xs).rename = fun x => !xs.contains x := by
      funext x
      simp only [Function.comp, List.contains_eq_mem, kept]
    rw [same]
    refine List.map_congr_left fun x mem => ?_
    have outside : x ∉ xs := by simpa using (List.mem_filter.1 mem).2
    rw [m.rename_without, if_neg outside]

/-- The free variables of a renamed formula are the new names of those of the formula. -/
theorem mem_freeOccurrences_rename {φ : Formula} {m : Renaming} (free : RenamesFreely m φ)
    {x : String} : x ∈ (φ.rename m).freeOccurrences ↔ ∃ y ∈ φ.freeOccurrences, m.rename y = x := by
  rw [freeOccurrences_rename free, List.mem_map]

/-- `(φ.rename m).Holds S v ↔ φ.Holds S (v ∘ m.rename)`: a renamed formula says of the new names
what the formula says of the old ones. -/
theorem holds_rename {φ : Formula} {m : Renaming} (free : RenamesFreely m φ) (v : Valuation D) :
    (φ.rename m).Holds S v ↔ φ.Holds S (v ∘ m.rename) := by
  -- Below a quantifier both the valuation and the renaming are others.
  induction φ using induction generalizing m v with
  | atom a => simpa only [rename, Holds] using a.holds_rename m.rename v
  | not φ ih => rw [rename, Holds, Holds, ih free.body_not]
  | connective op φs ih =>
    simp only [rename, Holds, List.map_map]
    exact op.joins_congr fun φ hφ => ih φ hφ (free.member hφ) v
  | quantified q xs φ ih =>
    simp only [rename, Holds]
    refine q.ranges_congr ?_ ?_
    · intro w agree
      refine ⟨w ∘ (m.without xs).rename, ?_, ih free.body w⟩
      intro x hx
      rw [Function.comp, Function.comp, m.rename_without, if_neg hx]
      exact agree _ (free.rename_not_mem hx)
    · -- The bound variables are taken from the inner valuation, the others from the outer one.
      intro u agree
      refine ⟨fun x => if x ∈ xs then u x else v x, fun x hx => (if_neg hx).symm, ?_⟩
      rw [ih free.body]
      have same : (fun x => if x ∈ xs then u x else v x) ∘ (m.without xs).rename = u := by
        funext x
        rw [Function.comp, m.rename_without]
        by_cases mem : x ∈ xs
        · rw [if_pos mem, if_pos mem]
        · rw [if_neg mem, if_neg (free.rename_not_mem mem)]
          exact agree x mem
      rw [same]

/-- **Renaming is simultaneous substitution** if it captures nothing. Where no new name is bound in
`φ`, `φ.rename m` says of the new names what `φ` says of the old ones, and its free variables are
the new names of those of `φ`. -/
theorem rename_substitutes (φ : Formula) (m : Renaming)
    (unbound : ∀ x y, m.lookup x = some y → y ∉ φ.boundVariables) :
    (∀ {D : Type} (S : Structure D) (v : Valuation D),
      (φ.rename m).Holds S v ↔ φ.Holds S fun x => v ((m.lookup x).getD x)) ∧
      ∀ x, x ∈ (φ.rename m).freeVariables ↔
        ∃ y ∈ φ.freeVariables, (m.lookup y).getD y = x := by
  refine ⟨fun S v => holds_rename unbound v, fun x => ?_⟩
  simp only [mem_freeVariables]
  exact mem_freeOccurrences_rename unbound

/-- The formula `(A(f(x),y,z) & ∀(z)[B(z,g(y))])`. -/
def shadowingBody : Formula :=
  .connective .and [.atom ⟨"A", [.app "f" [.var "x"], .var "y", .var "z"]⟩,
    .quantified .universal ["z"] (.atom ⟨"B", [.var "z", .app "g" [.var "y"]]⟩)]

/-- The variables `x` and `y` exchanged, and `z` renamed as well. -/
def exchange : Renaming := [("x", "y"), ("y", "x"), ("z", "y")]

/-- Where `x` and `y` are exchanged, the bound `z` is left alone. -/
theorem exchange_substitutes :
    (∀ x y, exchange.lookup x = some y → y ∉ shadowingBody.boundVariables) ∧
      shadowingBody.rename exchange =
        .connective .and [.atom ⟨"A", [.app "f" [.var "y"], .var "x", .var "y"]⟩,
          .quantified .universal ["z"] (.atom ⟨"B", [.var "z", .app "g" [.var "x"]]⟩)] ∧
      (∀ {D : Type} (S : Structure D) (v : Valuation D), (shadowingBody.rename exchange).Holds S v ↔
        shadowingBody.Holds S fun x => v ((exchange.lookup x).getD x)) ∧
      ∀ x, x ∈ (shadowingBody.rename exchange).freeVariables ↔
        ∃ y ∈ shadowingBody.freeVariables, (exchange.lookup y).getD y = x := by
  have bound : shadowingBody.boundVariables = ["z"] := by cbv
  have unbound : ∀ p ∈ exchange, p.2 ∉ shadowingBody.boundVariables := by
    rw [bound]
    decide
  have free : RenamesFreely exchange shadowingBody := .of_forall_mem unbound
  obtain ⟨holds, renamed⟩ := rename_substitutes shadowingBody exchange free
  refine ⟨free, ?_, holds, renamed⟩
  simp [shadowingBody, exchange, rename, Atom.rename, Term.rename, Renaming.rename,
    Renaming.without, List.lookup_cons]

/-- `quantified q ys (φ.rename (.ofPlaces xs ys))`: the variables of a quantifier may be renamed
along with its body, onto a list of variables that are not bound in it and not free beside those
renamed. Further variables of that list bind nothing. -/
theorem holds_quantified_rename {q : Quantifier} {xs ys : List String} {φ : Formula}
    (le : xs.length ≤ ys.length) (nodup : ys.Nodup) (unbound : ∀ y ∈ ys, y ∉ φ.boundVariables)
    (fresh : ∀ x ∈ φ.freeOccurrences, x ∈ ys → x ∈ xs) (v : Valuation D) :
    (Formula.quantified q ys (φ.rename (.ofPlaces xs ys))).Holds S v ↔
      (Formula.quantified q xs φ).Holds S v := by
  have free : RenamesFreely (.ofPlaces xs ys) φ :=
    .of_forall_mem fun p mem => unbound _ (Renaming.snd_mem_of_mem_ofPlaces mem)
  simp only [Holds]
  refine q.ranges_congr ?_ ?_
  · -- Each old name takes the value of its new one.
    intro w agree
    refine ⟨fun x => if x ∈ xs then w ((Renaming.ofPlaces xs ys).rename x) else v x,
      fun x hx => (if_neg hx).symm, ?_⟩
    rw [holds_rename free]
    refine holds_congr_of_agree S ?_
    intro x mem
    by_cases renamed : x ∈ xs
    · exact (if_pos renamed).symm
    · rw [if_neg renamed, Function.comp, Renaming.rename_ofPlaces_of_not_mem le renamed]
      exact (agree x fun hx => renamed (fresh x mem hx)).symm
  · -- A new name takes the value of the only variable that is renamed to it.
    intro u agree
    have exists_value : ∀ y, ∃ d : D,
        (∀ x ∈ xs, (Renaming.ofPlaces xs ys).rename x = y → d = u x) ∧ (y ∉ ys → v y = d) := by
      intro y
      by_cases used : ∃ x ∈ xs, (Renaming.ofPlaces xs ys).rename x = y
      · obtain ⟨x, hx, rfl⟩ := used
        refine ⟨u x, ?_, ?_⟩
        · intro x' hx' same
          rw [Renaming.rename_ofPlaces_inj le nodup hx hx' same.symm]
        · intro hy
          exact absurd (Renaming.rename_ofPlaces_mem le hx) hy
      · exact ⟨v y, fun x hx same => absurd ⟨x, hx, same⟩ used, fun _ => rfl⟩
    choose w renamed outside using exists_value
    refine ⟨w, outside, ?_⟩
    rw [holds_rename free]
    refine holds_congr_of_agree S ?_
    intro x mem
    by_cases inside : x ∈ xs
    · exact renamed _ x inside rfl
    · -- A variable that is not renamed keeps its value, as it is none of the new names.
      rw [Function.comp, Renaming.rename_ofPlaces_of_not_mem le inside, ← agree x inside]
      exact (outside x fun hx => inside (fresh x mem hx)).symm

end Formula

end ClausalForm
