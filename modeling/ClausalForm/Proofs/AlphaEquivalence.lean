import ClausalForm.Proofs.Renaming
import ClausalForm.Proofs.Signature
import Mathlib.Data.List.Nodup
import Mathlib.Data.List.Zip

/-! # Renaming of bound variables

Two formulas are alike up to the names of their bound variables if one is the other one with new
names in its quantifiers and every occurrence following its innermost quantifier.

* **`Renaming.Recovers`**: a variable can be told from its new name.
* **`Renaming.Composes`**: one renaming after another one, place by place.
* **`Formula.AlphaEq`**: formulas alike up to their bound variables, inside of quantifiers whose
  variables have been renamed.
* **`Formula.AlphaEq.holds_iff`**: they have the same truth.
* **`Formula.AlphaEq.freeOccurrences_eq`**: they have the same free occurrences.
* **`Formula.AlphaEq.wellFormed`**: they are well-formed together.
* **`Formula.AlphaEq.equivalence`**: to be alike is an equivalence. -/

namespace ClausalForm

namespace Renaming

variable {m m' : Renaming} {x : String} {xs ys : List String}

/-! ## New names and old names -/

/-- `m.inverse`: the renaming of the new names to the old ones. -/
def inverse (m : Renaming) : Renaming := m.map Prod.swap

/-- `m.Recovers x`: the variable is what the inverse makes of its new name. No other variable has
this name in between. -/
def Recovers (m : Renaming) (x : String) : Prop := m.inverse.rename (m.rename x) = x

/-- `(m ++ m').rename x`: the first of two renamings counts. -/
theorem rename_append (m m' : Renaming) (x : String) :
    (m ++ m').rename x = if x ∈ m.map Prod.fst then m.rename x else m'.rename x := by
  induction m with
  | nil => rfl
  | cons p m ih =>
    obtain ⟨a, b⟩ := p
    by_cases same : x = a
    · subst same
      rw [List.cons_append, rename_cons_self, rename_cons_self]
      exact (if_pos List.mem_cons_self).symm
    · simp only [List.cons_append, rename_cons_of_ne same, ih, List.map_cons, List.mem_cons, same,
        false_or]

/-- `(ofPlaces xs ys ++ m).inverse`: the inverse of a renaming by places before others renames back
by places first. -/
theorem inverse_inside (xs ys : List String) (m : Renaming) :
    (ofPlaces xs ys ++ m).inverse = ofPlaces ys xs ++ m.inverse := by
  rw [inverse, List.map_append, ofPlaces, List.map_reverse, List.zip_swap, ← ofPlaces, ← inverse]

/-- The inverse of the inverse is the renaming. -/
theorem inverse_inverse (m : Renaming) : m.inverse.inverse = m := by
  rw [inverse, inverse, List.map_map, Prod.swap_swap_eq, List.map_id]

/-- `m.inverse.map Prod.fst`: the new names are what the inverse renames. -/
theorem map_fst_inverse (m : Renaming) : m.inverse.map Prod.fst = m.map Prod.snd := by
  rw [inverse, List.map_map]
  rfl

/-- `(ofPlaces xs ys ++ m).rename x` for `x ∈ xs`: inside of a quantifier its variables get the new
names at their places. -/
theorem rename_inside (length : xs.length = ys.length) (mem : x ∈ xs) :
    (ofPlaces xs ys ++ m).rename x = (ofPlaces xs ys).rename x := by
  rw [rename_append, if_pos ((mem_fst_ofPlaces (Nat.le_of_eq length)).2 mem)]

/-- `(ofPlaces xs ys ++ m).rename x` for `x ∉ xs`: inside of a quantifier the other variables are
renamed as outside of it. -/
theorem rename_outside (length : xs.length = ys.length) (out : x ∉ xs) :
    (ofPlaces xs ys ++ m).rename x = m.rename x := by
  rw [rename_append, if_neg fun mem => out ((mem_fst_ofPlaces (Nat.le_of_eq length)).1 mem)]

/-- `m.rename x ∉ ys`: a variable from outside of a quantifier is not given a name that the
quantifier binds. -/
theorem Recovers.outside (h : (ofPlaces xs ys ++ m).Recovers x) (length : xs.length = ys.length)
    (out : x ∉ xs) : m.rename x ∉ ys ∧ m.Recovers x := by
  rw [Recovers, inverse_inside, rename_outside length out] at h
  have apart : m.rename x ∉ ys := by
    intro mem
    rw [rename_inside length.symm mem] at h
    exact out (h ▸ rename_ofPlaces_mem (Nat.le_of_eq length.symm) mem)
  rw [rename_outside length.symm apart] at h
  exact ⟨apart, h⟩

/-- `(ofPlaces xs ys ++ m).rename x ∈ ys ↔ x ∈ xs`: a variable has a name that a quantifier binds
exactly if the quantifier binds the variable. -/
theorem Recovers.rename_mem_iff (h : (ofPlaces xs ys ++ m).Recovers x)
    (length : xs.length = ys.length) : (ofPlaces xs ys ++ m).rename x ∈ ys ↔ x ∈ xs := by
  by_cases mem : x ∈ xs
  · rw [rename_inside length mem]
    exact ⟨fun _ => mem, fun _ => rename_ofPlaces_mem (Nat.le_of_eq length) mem⟩
  · rw [rename_outside length mem]
    exact ⟨fun inside => absurd inside (h.outside length mem).1, fun inside => absurd inside mem⟩

/-- `m.Recovers x` if the new names are different and none of them is used otherwise. -/
theorem recovers_of_nodup (nodup : (m.map Prod.snd).Nodup)
    (apart : x ∉ m.map Prod.fst → x ∉ m.map Prod.snd) : m.Recovers x := by
  by_cases mem : x ∈ m.map Prod.fst
  · have renamed := mem_of_mem_fst mem
    have back : (m.rename x, x) ∈ m.inverse := List.mem_map_of_mem (f := Prod.swap) renamed
    have found := mem_of_mem_fst (List.mem_map_of_mem (f := Prod.fst) back)
    -- The pair that the inverse finds has the same new name, so it is the pair of the variable.
    have pair : (m.inverse.rename (m.rename x), m.rename x) ∈ m := by
      obtain ⟨p, hp, same⟩ := List.mem_map.1 found
      rw [← Prod.swap_swap p, same] at hp
      exact hp
    exact congrArg Prod.fst (List.inj_on_of_nodup_map nodup pair renamed rfl)
  · rw [Recovers, rename_of_not_mem mem]
    exact rename_of_not_mem (by rw [map_fst_inverse]; exact apart mem)

/-! ## Renamings one after the other -/

/-- At each place, `k` renames to what `n` makes of the new name that `m` has there. -/
inductive Composes : Renaming → Renaming → Renaming → Prop
  | nil : Composes [] [] []
  | cons {x y z : String} {m n k : Renaming} (rest : Composes m n k) :
      Composes ((x, y) :: m) ((y, z) :: n) ((x, z) :: k)

namespace Composes

variable {n k m' n' k' : Renaming} {zs : List String}

/-- Places before other places. -/
theorem append (first : Composes m n k) (second : Composes m' n' k') :
    Composes (m ++ m') (n ++ n') (k ++ k') := by
  induction first with
  | nil => exact second
  | cons _ ih => exact .cons ih

/-- `Composes (ofPlaces xs ys) (ofPlaces ys zs) (ofPlaces xs zs)`: lists renamed by places. -/
theorem ofPlaces (first : xs.length = ys.length) (second : ys.length = zs.length) :
    Composes (.ofPlaces xs ys) (.ofPlaces ys zs) (.ofPlaces xs zs) := by
  induction xs generalizing ys zs with
  | nil =>
    obtain rfl := List.length_eq_zero_iff.1 first.symm
    obtain rfl := List.length_eq_zero_iff.1 second.symm
    exact .nil
  | cons x xs ih =>
    match ys, zs with
    | y :: ys, z :: zs =>
      simp only [Renaming.ofPlaces, List.zip_cons_cons, List.reverse_cons]
      exact (ih (Nat.succ.inj first) (Nat.succ.inj second)).append (.cons .nil)

/-- `Composes` inside of quantifiers that bind lists of one length. -/
theorem inside (h : Composes m n k) (first : xs.length = ys.length)
    (second : ys.length = zs.length) :
    Composes (.ofPlaces xs ys ++ m) (.ofPlaces ys zs ++ n) (.ofPlaces xs zs ++ k) :=
  (ofPlaces first second).append h

/-- A variable that can be told from its new name has a place in `k` exactly if the new name has one
in `n`, and both are renamed alike. -/
theorem rename_eq (h : Composes m n k) (recovers : m.Recovers x) :
    (m.rename x ∈ n.map Prod.fst ↔ x ∈ k.map Prod.fst) ∧ n.rename (m.rename x) = k.rename x := by
  induction h with
  | nil => exact ⟨Iff.rfl, rfl⟩
  | @cons a b c m n k _ ih =>
    by_cases same : x = a
    · subst same
      simp only [rename_cons_self, List.map_cons, List.mem_cons, true_or, and_self]
    · -- The first new name belongs to the first variable, so it is not that of another one.
      have first : (Renaming.ofPlaces [a] [b] ++ m).Recovers x := recovers
      obtain ⟨apart, later⟩ := first.outside rfl (by simpa using same)
      rw [List.mem_singleton] at apart
      obtain ⟨known, renamed⟩ := ih later
      simp only [rename_cons_of_ne same, rename_cons_of_ne apart, List.map_cons, List.mem_cons,
        same, apart, false_or]
      exact ⟨known, renamed⟩

/-- A variable without a place in `k` is kept by `m`. -/
theorem rename_of_not_mem (h : Composes m n k) (unbound : x ∉ k.map Prod.fst) :
    m.rename x = x := by
  refine Renaming.rename_of_not_mem ?_
  induction h with
  | nil => exact unbound
  | cons _ ih =>
    simp only [List.map_cons, List.mem_cons, not_or] at unbound ⊢
    exact ⟨unbound.1, ih unbound.2⟩

/-- `Composes n.inverse m.inverse k.inverse`: the inverses stand in the other order. -/
theorem inverse (h : Composes m n k) : Composes n.inverse m.inverse k.inverse := by
  induction h with
  | nil => exact .nil
  | cons _ ih => exact .cons ih

/-- `k.Recovers x`: a variable can be told from its last name if each name can be told from the next
one. -/
theorem recovers (h : Composes m n k) (first : m.Recovers x) (second : n.Recovers (m.rename x)) :
    k.Recovers x := by
  have renamed := (h.rename_eq first).2
  have back : n.inverse.Recovers (k.rename x) := by
    rw [Recovers, inverse_inverse, ← renamed, second]
  rw [Recovers, ← (h.inverse.rename_eq back).2, ← renamed, second, first]

end Composes

/-! ## Valuations of new names -/

variable {D : Type} {v w v' : Valuation D}

/-- The valuation `w` gives to the new names what `v` gives to the variables. -/
def Transfers (m : Renaming) (v w : Valuation D) : Prop :=
  ∀ x, m.Recovers x → v x = w (m.rename x)

/-- `m.Transfers v w`: a change of the variables of a quantifier is a change of their new names. -/
theorem Transfers.forward (h : m.Transfers v w) (length : xs.length = ys.length)
    (outside : v.AgreesOutside xs v') :
    ∃ w', w.AgreesOutside ys w' ∧ (ofPlaces xs ys ++ m).Transfers v' w' := by
  refine ⟨fun y => if y ∈ ys then v' ((ofPlaces ys xs).rename y) else w y,
    fun y out => (if_neg out).symm, fun x recovers => ?_⟩
  by_cases mem : x ∈ xs
  · have back := recovers
    rw [Recovers, inverse_inside,
      rename_inside length.symm ((recovers.rename_mem_iff length).2 mem)] at back
    simp only [if_pos ((recovers.rename_mem_iff length).2 mem), back]
  · obtain ⟨apart, rest⟩ := recovers.outside length mem
    simp only [rename_outside length mem, if_neg apart, ← outside x mem]
    exact h x rest

/-- `m.Transfers v w`: a change of the new names of a quantifier is a change of its variables. -/
theorem Transfers.backward {w' : Valuation D} (h : m.Transfers v w)
    (length : xs.length = ys.length) (outside : w.AgreesOutside ys w') :
    ∃ v', v.AgreesOutside xs v' ∧ (ofPlaces xs ys ++ m).Transfers v' w' := by
  refine ⟨fun x => if x ∈ xs then w' ((ofPlaces xs ys).rename x) else v x,
    fun x out => (if_neg out).symm, fun x recovers => ?_⟩
  by_cases mem : x ∈ xs
  · simp only [if_pos mem, rename_inside length mem]
  · obtain ⟨apart, rest⟩ := recovers.outside length mem
    simp only [if_neg mem, rename_outside length mem, ← outside _ apart]
    exact h x rest

end Renaming

namespace Formula

variable {m : Renaming} {φ ψ : Formula}

/-! ## The relation -/

/-- `ψ` is `φ` with new names for its bound variables, where `m` are the new names of the variables
bound outside, innermost first. Each variable can be told from its new name. -/
inductive AlphaEq : Renaming → Formula → Formula → Prop
  | atom {m : Renaming} {a : Atom} (recovers : ∀ x ∈ a.occurrences, m.Recovers x) :
      AlphaEq m (.atom a) (.atom (a.rename m.rename))
  | not {m : Renaming} {φ ψ : Formula} (body : AlphaEq m φ ψ) : AlphaEq m (.not φ) (.not ψ)
  | connective {m : Renaming} {op : Connective} {φs ψs : List Formula}
      (length : φs.length = ψs.length) (members : ∀ p ∈ φs.zip ψs, AlphaEq m p.1 p.2) :
      AlphaEq m (.connective op φs) (.connective op ψs)
  | quantified {m : Renaming} {q : Quantifier} {xs ys : List String} {φ ψ : Formula}
      (length : xs.length = ys.length) (body : AlphaEq (.ofPlaces xs ys ++ m) φ ψ) :
      AlphaEq m (.quantified q xs φ) (.quantified q ys ψ)

/-- Members that stand at the same places are related one by one. -/
theorem forall₂_of_zip {r : Formula → Formula → Prop} {φs ψs : List Formula}
    (length : φs.length = ψs.length) (members : ∀ p ∈ φs.zip ψs, r p.1 p.2) :
    List.Forall₂ r φs ψs :=
  List.forall₂_iff_zip.2 ⟨length, fun mem => members _ mem⟩

/-- Members that are related through members in between. -/
theorem forall₂_comp {r r' r'' : Formula → Formula → Prop} {φs ψs χs : List Formula}
    (first : List.Forall₂ r φs ψs) (second : List.Forall₂ r' ψs χs)
    (through : ∀ φ ψ χ, r φ ψ → r' ψ χ → r'' φ χ) : List.Forall₂ r'' φs χs := by
  induction first generalizing χs with
  | nil =>
    cases second
    exact .nil
  | cons here _ ih =>
    cases second with
    | cons here' rest => exact .cons (through _ _ _ here here') (ih rest)

/-- Related members with the same values have the same values in order. -/
theorem map_eq_of_forall₂ {α : Type} {f g : Formula → α} {φs ψs : List Formula}
    (same : List.Forall₂ (fun φ ψ => g ψ = f φ) φs ψs) : ψs.map g = φs.map f := by
  induction same with
  | nil => rfl
  | cons first _ ih => rw [List.map_cons, List.map_cons, first, ih]

/-- Related members with the same lists have the same lists one after the other. -/
theorem flatMap_eq_of_forall₂ {α : Type} {f g : Formula → List α} {φs ψs : List Formula}
    (same : List.Forall₂ (fun φ ψ => g ψ = f φ) φs ψs) : ψs.flatMap g = φs.flatMap f := by
  rw [List.flatMap_def, List.flatMap_def, map_eq_of_forall₂ same]

namespace AlphaEq

/-- `AlphaEq m` on members: connectives with members alike are alike. -/
theorem of_members {op : Connective} {φs ψs : List Formula}
    (members : List.Forall₂ (AlphaEq m) φs ψs) :
    AlphaEq m (.connective op φs) (.connective op ψs) :=
  .connective members.length_eq fun _ mem => (List.forall₂_iff_zip.1 members).2 mem

/-- `AlphaEq m φ ψ`: formulas alike up to their bound variables have the same truth under valuations
between which `m` transfers. -/
theorem holds_iff {D : Type} {S : Structure D} {v w : Valuation D} (h : AlphaEq m φ ψ)
    (transfers : m.Transfers v w) : φ.Holds S v ↔ ψ.Holds S w := by
  -- The valuations change below a quantifier, and so do the renamings.
  induction h generalizing v w with
  | @atom m a recovers =>
    rw [Holds, Holds, Atom.holds_rename]
    exact a.holds_congr S fun x mem => transfers x (recovers x mem)
  | not _ ih => rw [Holds, Holds, ih transfers]
  | @connective m op φs ψs length _ ih =>
    exact holds_connective_congr op (forall₂_of_zip length fun p mem => ih p mem transfers)
  | @quantified m q xs ys φ ψ length _ ih =>
    rw [Holds, Holds]
    apply q.ranges_congr
    · intro v' outside
      obtain ⟨w', outside', inside⟩ := transfers.forward length outside
      exact ⟨w', outside', ih inside⟩
    · intro w' outside
      obtain ⟨v', outside', inside⟩ := transfers.backward length outside
      exact ⟨v', outside', ih inside⟩

/-- `AlphaEq [] φ ψ`: formulas alike up to their bound variables have the same truth under every
valuation. -/
theorem holds {D : Type} {S : Structure D} {v : Valuation D} (h : AlphaEq [] φ ψ) :
    φ.Holds S v ↔ ψ.Holds S v :=
  h.holds_iff fun _ _ => rfl

/-- `m.Recovers x`: every free variable can be told from its new name. -/
theorem recovers (h : AlphaEq m φ ψ) {x : String} (mem : x ∈ φ.freeOccurrences) : m.Recovers x := by
  induction h with
  | atom recovers =>
    rw [freeOccurrences_atom] at mem
    exact recovers x mem
  | not _ ih =>
    rw [freeOccurrences_not] at mem
    exact ih mem
  | @connective m op φs ψs length _ ih =>
    rw [freeOccurrences_connective] at mem
    obtain ⟨φ, hφ, hx⟩ := List.mem_flatMap.1 mem
    rw [← List.map_fst_zip (Nat.le_of_eq length)] at hφ
    obtain ⟨p, hp, rfl⟩ := List.mem_map.1 hφ
    exact ih p hp hx
  | quantified length _ ih =>
    rw [mem_freeOccurrences_quantified] at mem
    exact ((ih mem.1).outside length mem.2).2

/-- `ψ.freeOccurrences = φ.freeOccurrences.map m.rename`: the free occurrences are renamed. -/
theorem freeOccurrences_eq (h : AlphaEq m φ ψ) :
    ψ.freeOccurrences = φ.freeOccurrences.map m.rename := by
  induction h with
  | @atom m a _ =>
    rw [freeOccurrences_atom, freeOccurrences_atom]
    exact a.occurrences_rename m.rename
  | not _ ih => rw [freeOccurrences_not, freeOccurrences_not, ih]
  | connective length _ ih =>
    rw [freeOccurrences_connective, freeOccurrences_connective, List.map_flatMap]
    exact flatMap_eq_of_forall₂ (forall₂_of_zip length ih)
  | @quantified m q xs ys φ ψ length body ih =>
    rw [freeOccurrences, freeOccurrences, ih, List.filter_map]
    -- What the quantifier binds is the same before and after the renaming.
    have bound : ∀ x ∈ φ.freeOccurrences,
        (!ys.contains ((Renaming.ofPlaces xs ys ++ m).rename x)) = !xs.contains x := by
      intro x mem
      simp only [List.contains_eq_mem, (body.recovers mem).rename_mem_iff length]
    rw [Function.comp_def, List.filter_congr bound]
    apply List.map_congr_left
    intro x mem
    rw [List.mem_filter, List.contains_eq_mem, Bool.not_eq_true', decide_eq_false_iff_not] at mem
    exact Renaming.rename_outside length mem.2

/-- Outside of all quantifiers the free occurrences are the same. -/
theorem freeOccurrences_eq_of_nil (h : AlphaEq [] φ ψ) :
    ψ.freeOccurrences = φ.freeOccurrences := by
  have kept : Renaming.rename [] = id := rfl
  rw [h.freeOccurrences_eq, kept, List.map_id]

/-- `ψ.signature = φ.signature`: the predicates are the same. -/
theorem signature_eq (h : AlphaEq m φ ψ) : ψ.signature = φ.signature := by
  induction h with
  | atom _ => rw [signature_atom, signature_atom, Atom.symbol_rename]
  | not _ ih => rw [signature_not, signature_not, ih]
  | connective length _ ih =>
    rw [signature_connective, signature_connective]
    exact flatMap_eq_of_forall₂ (forall₂_of_zip length ih)
  | quantified _ _ ih => rw [signature_quantified, signature_quantified, ih]

/-- As many variables are bound. -/
theorem length_boundVariables (h : AlphaEq m φ ψ) :
    ψ.boundVariables.length = φ.boundVariables.length := by
  induction h with
  | atom _ => rw [boundVariables_atom, boundVariables_atom]
  | not _ ih => rw [boundVariables_not, boundVariables_not, ih]
  | connective length _ ih =>
    rw [boundVariables_connective, boundVariables_connective, List.length_flatMap,
      List.length_flatMap]
    exact congrArg List.sum (map_eq_of_forall₂ (forall₂_of_zip length ih))
  | quantified length _ ih =>
    rw [boundVariables_quantified, boundVariables_quantified, List.length_append,
      List.length_append, length, ih]

/-- Formulas alike are both atoms or both not. -/
theorem isAtom_eq (h : AlphaEq m φ ψ) : ψ.isAtom = φ.isAtom := by cases h <;> rfl

/-- Formulas alike are both connectives of one kind or both not. -/
theorem isConnective_eq (h : AlphaEq m φ ψ) (op : Connective) :
    ψ.isConnective op = φ.isConnective op := by cases h <;> rfl

/-- `ψ.WellFormed leaves`: a formula like a well-formed one is well-formed if it binds no variable
twice. -/
theorem wellFormed {leaves : Leaves} (h : AlphaEq m φ ψ) (wellFormed : φ.WellFormed leaves)
    (nodup : ψ.boundVariables.Nodup) (named : "" ∉ ψ.boundVariables) : ψ.WellFormed leaves := by
  induction h with
  | atom _ =>
    cases wellFormed with
    | atom allowed => exact .atom (leaves.rename _ allowed)
  | not body ih =>
    cases wellFormed with
    | not allowed inner =>
      rw [boundVariables_not] at nodup named
      exact .not (by rwa [body.isAtom_eq]) (ih inner nodup named)
  | @connective m op φs ψs length members ih =>
    cases wellFormed with
    | connective two flat all =>
      rw [boundVariables_connective] at nodup named
      -- The shape comes from the member it is like, the names from what the connective binds.
      have each := forall₂_of_zip (r := fun φ ψ => φ ∈ φs ∧ AlphaEq m φ ψ ∧
        (φ.WellFormed leaves → ψ.boundVariables.Nodup → "" ∉ ψ.boundVariables →
          ψ.WellFormed leaves)) length
        fun p mem => ⟨(List.of_mem_zip mem).1, members p mem, ih p mem⟩
      refine .connective (length ▸ two) ?_ ?_
      · intro ψ mem
        obtain ⟨φ, _, hφ, like, _⟩ := forall₂_right each mem
        rw [like.isConnective_eq, flat φ hφ]
      · intro ψ mem
        obtain ⟨φ, _, hφ, _, preserved⟩ := forall₂_right each mem
        refine preserved (all φ hφ) ((List.nodup_flatMap.1 nodup).1 ψ mem) ?_
        intro unnamed
        exact named (List.mem_flatMap.2 ⟨ψ, mem, unnamed⟩)
  | quantified length _ ih =>
    cases wellFormed with
    | quantified binder body =>
      rw [boundVariables_quantified] at nodup named
      rw [List.mem_append, not_or] at named
      obtain ⟨outer, inner, _⟩ := List.nodup_append.1 nodup
      refine .quantified ⟨?_, outer, named.1⟩ (ih body inner named.2)
      intro none
      rw [none, List.length_nil, List.length_eq_zero_iff] at length
      exact binder.some length

/-! ### Equivalence -/

/-- `AlphaEq m φ φ`: a formula is like itself where every variable bound outside has kept its
name. -/
theorem refl_of_kept (φ : Formula) (kept : ∀ p ∈ m, p.1 = p.2) : AlphaEq m φ φ := by
  induction φ using induction generalizing m with
  | atom a =>
    have same : m.rename = id := by
      funext x
      by_cases mem : x ∈ m.map Prod.fst
      · exact (kept _ (Renaming.mem_of_mem_fst mem)).symm
      · exact Renaming.rename_of_not_mem mem
    have inverse : m.inverse = m := by
      refine (List.map_congr_left fun p mem => ?_).trans (List.map_id m)
      exact Prod.ext (kept p mem).symm (kept p mem)
    have like : AlphaEq m (.atom a) (.atom (a.rename m.rename)) :=
      .atom fun x _ => by rw [Renaming.Recovers, inverse, same]; rfl
    rwa [same, Atom.rename_id] at like
  | not φ ih => exact .not (ih kept)
  | connective op φs ih => exact of_members (List.forall₂_same.2 fun φ mem => ih φ mem kept)
  | quantified q xs φ ih =>
    refine .quantified rfl (ih (List.forall_mem_append.2 ⟨fun p mem => ?_, kept⟩))
    exact List.forall₂_zip (List.forall₂_same.2 fun _ _ => rfl) (Renaming.mem_ofPlaces.1 mem)

/-- `AlphaEq m.inverse ψ φ`: old names are new names for the new ones. -/
theorem symm (h : AlphaEq m φ ψ) : AlphaEq m.inverse ψ φ := by
  induction h with
  | @atom m a recovers =>
    have back : (a.rename m.rename).rename m.inverse.rename = a :=
      (Atom.rename_rename recovers).trans a.rename_id
    have like : AlphaEq m.inverse (.atom (a.rename m.rename))
        (.atom ((a.rename m.rename).rename m.inverse.rename)) := by
      refine .atom fun y mem => ?_
      rw [Atom.occurrences_rename] at mem
      obtain ⟨x, hx, rfl⟩ := List.mem_map.1 mem
      rw [Renaming.Recovers, Renaming.inverse_inverse, recovers x hx]
    rwa [back] at like
  | not _ ih => exact .not ih
  | connective length _ ih => exact of_members (forall₂_of_zip length ih).flip
  | @quantified m q xs ys φ ψ length _ ih =>
    rw [Renaming.inverse_inside] at ih
    exact .quantified length.symm ih

/-- `AlphaEq k φ χ`: new names for the new names are new names. -/
theorem trans {n k : Renaming} {χ : Formula} (h : AlphaEq m φ ψ) (h' : AlphaEq n ψ χ)
    (composes : m.Composes n k) : AlphaEq k φ χ := by
  -- The two renamings are extended together at a quantifier, where they still compose.
  induction h generalizing n k χ with
  | @atom m a recovers =>
    cases h' with
    | atom recovers' =>
      rw [Atom.rename_rename fun x mem => (composes.rename_eq (recovers x mem)).2]
      refine .atom fun x mem => composes.recovers (recovers x mem) (recovers' _ ?_)
      rw [Atom.occurrences_rename]
      exact List.mem_map_of_mem mem
  | not _ ih =>
    cases h' with
    | not body => exact .not (ih body composes)
  | @connective m op φs ψs length _ ih =>
    cases h' with
    | @connective _ _ _ χs length' members' =>
      have first : List.Forall₂ (fun φ ψ => ∀ χ, AlphaEq n ψ χ → AlphaEq k φ χ) φs ψs :=
        forall₂_of_zip length fun p mem _ like => ih p mem like composes
      have second : List.Forall₂ (AlphaEq n) ψs χs := forall₂_of_zip length' members'
      exact of_members (forall₂_comp first second fun _ _ _ after like => after _ like)
  | quantified length _ ih =>
    cases h' with
    | quantified length' body =>
      exact .quantified (length.trans length') (ih body (composes.inside length length'))

/-- **Alpha-equivalence.** `AlphaEq []`, to be alike up to the names of the bound variables, is an
equivalence. -/
theorem equivalence : Equivalence (AlphaEq []) where
  refl φ := refl_of_kept φ (List.forall_mem_nil _)
  symm h := h.symm
  trans h h' := h.trans h' .nil

end AlphaEq

end Formula

end ClausalForm
