import ClausalForm.FunctionFree
import ClausalForm.Proofs.FreshNames
import ClausalForm.Proofs.Truth
import Mathlib.Data.List.Basic

/-! # Flattening of terms

Flattening replaces the applications in some terms by fresh variables and lists what these stand
for. Any valuation that gives the fresh variables these values gives the flat terms the values of
the terms; and since the variables are fresh, there always is such a valuation.

* **`Term.applications`**: the functions that a term applies.
* **`Definition.Holds`**: a variable has the value that it stands for.
* **`Flattens`**: the terms, the flat terms and the definitions of a run.
* **`Flattens.map_value`**: the values of the flat terms.
* **`Flattens.exists_holds`**: a valuation under which the definitions hold. -/

namespace ClausalForm

variable {D : Type} {S : Structure D} {v w : Valuation D}

/-! ## Applications -/

/-- `t.applications`: the applications of functions in a term, as the function with its number of
arguments, those in the arguments first. -/
def Term.applications : Term → List (String × Nat)
  | .var _ => []
  | .app f ts => ts.flatMap applications ++ [(f, ts.length)]

/-- `a.applications`: the applications of functions in an atom. -/
def Atom.applications (a : Atom) : List (String × Nat) := a.args.flatMap Term.applications

/-- `(t.rename f).applications`: renaming variables keeps the applications. -/
theorem Term.applications_rename (f : String → String) (t : Term) :
    (t.rename f).applications = t.applications := by
  match t with
  | .var x => rw [rename, applications, applications]
  | .app g ts =>
    rw [rename, applications, applications, List.length_map, List.flatMap_map]
    congr 1
    exact List.flatMap_congr fun t _ => applications_rename f t

/-- `(a.rename f).applications`: renaming variables keeps the applications. -/
theorem Atom.applications_rename (f : String → String) (a : Atom) :
    (a.rename f).applications = a.applications := by
  rw [rename, applications, applications, List.flatMap_map]
  exact List.flatMap_congr fun t _ => t.applications_rename f

/-- `t.isApplication = false ↔ t.applications = []`: a term that is no application has none. -/
theorem Term.isApplication_eq_false_iff {t : Term} :
    t.isApplication = false ↔ t.applications = [] := by
  cases t with
  | var => simp [isApplication, applications]
  | app => simp [isApplication, applications]

/-- `a.hasFunctions = false ↔ a.applications = []`: an atom without functions has no
applications. -/
theorem Atom.hasFunctions_eq_false_iff {a : Atom} :
    a.hasFunctions = false ↔ a.applications = [] := by
  simp only [hasFunctions, applications, List.any_eq_false, List.flatMap_eq_nil_iff,
    Bool.not_eq_true, Term.isApplication_eq_false_iff]

/-! ## Definitions -/

namespace Definition

/-- `d.occurrences`: the variables of a definition, its value first. -/
def occurrences (d : Definition) : List String := d.value :: d.args.flatMap Term.occurrences

/-- `d.application`: the function that a definition applies, with its number of arguments. -/
def application (d : Definition) : String × Nat := (d.function, d.args.length)

/-- `d.Holds S v`: the variable has the value that it stands for. -/
def Holds (S : Structure D) (v : Valuation D) (d : Definition) : Prop :=
  S.function d.function (d.args.map (Term.value S v)) = v d.value

/-- The values of terms depend on their variables only. -/
theorem map_value_congr {ts : List Term} (agree : ∀ x ∈ ts.flatMap Term.occurrences, v x = w x) :
    ts.map (Term.value S v) = ts.map (Term.value S w) :=
  List.map_congr_left fun t mem =>
    t.value_congr S fun x hx => agree x (List.mem_flatMap.2 ⟨t, mem, hx⟩)

/-- `d.Holds S v`: whether a definition holds depends on its variables only. -/
theorem holds_congr {d : Definition} (agree : ∀ x ∈ d.occurrences, v x = w x) :
    d.Holds S v ↔ d.Holds S w := by
  rw [occurrences, List.forall_mem_cons] at agree
  rw [Holds, Holds, agree.1, map_value_congr agree.2]

/-- Definitions can be made to hold one after the other if none of them speaks of a variable that is
defined later, and none of its own. -/
theorem exists_holds {ds : List Definition} (S : Structure D)
    (own : ∀ d ∈ ds, d.value ∉ d.args.flatMap Term.occurrences)
    (ordered : ds.Pairwise fun d e => e.value ∉ d.occurrences) (v : Valuation D) :
    ∃ w, v.AgreesOutside (ds.map value) w ∧ ∀ d ∈ ds, d.Holds S w := by
  induction ds generalizing v with
  | nil => exact ⟨v, .refl _ v, List.forall_mem_nil _⟩
  | cons d ds ih =>
    obtain ⟨own, rest⟩ := List.forall_mem_cons.1 own
    obtain ⟨first, ordered⟩ := List.pairwise_cons.1 ordered
    -- The first variable is given its value, and the later definitions do not change it.
    let u : Valuation D := fun x =>
      if x = d.value then S.function d.function (d.args.map (Term.value S v)) else v x
    have same : ∀ x ∈ d.args.flatMap Term.occurrences, v x = u x := by
      intro x mem
      have other : x ≠ d.value := by
        rintro rfl
        exact own mem
      exact (if_neg other).symm
    have holds : d.Holds S u := by
      rw [Holds, ← map_value_congr same]
      exact (if_pos rfl).symm
    obtain ⟨w, outside, all⟩ := ih rest ordered u
    refine ⟨w, ?_, List.forall_mem_cons.2 ⟨?_, all⟩⟩
    · intro x out
      rw [List.map_cons, List.mem_cons, not_or] at out
      rw [← outside x out.2]
      exact (if_neg out.1).symm
    · refine (holds_congr fun x mem => outside x fun later => ?_).1 holds
      obtain ⟨e, he, rfl⟩ := List.mem_map.1 later
      exact first e he mem

end Definition

/-! ## Runs -/

/-- From the supply `s` the terms are flattened, with the definitions of their applications, and the
supply is left behind as the last one. -/
inductive Flattens : FreshSupply → List Term → List Term → List Definition → FreshSupply → Prop
  | nil {s : FreshSupply} : Flattens s [] [] [] s
  | var {s t : FreshSupply} {x : String} {ts flats : List Term} {ds : List Definition}
      (rest : Flattens s ts flats ds t) : Flattens s (.var x :: ts) (.var x :: flats) ds t
  | app {s t u : FreshSupply} {f : String} {args flatArgs ts flats : List Term}
      {ds es : List Definition} (inner : Flattens s args flatArgs ds t)
      (rest : Flattens (FreshSupply.next f t).2 ts flats es u) :
      Flattens s (.app f args :: ts) (.var (FreshSupply.next f t).1 :: flats)
        (ds ++ [⟨f, flatArgs, (FreshSupply.next f t).1⟩] ++ es) u

/-- `Flattens s ts flats ds t`: flattening terms in order is such a run. -/
theorem flattens_inOrder (ts : List Term) (s : FreshSupply) :
    Flattens s ts ((inOrder (ts.map Term.flatten) s).1.map Prod.fst)
      ((inOrder (ts.map Term.flatten) s).1.flatMap Prod.snd)
      (inOrder (ts.map Term.flatten) s).2 := by
  match ts with
  | [] => exact .nil
  | .var x :: ts =>
    rw [List.map_cons, Term.flatten]
    exact .var (flattens_inOrder ts s)
  | .app f args :: ts =>
    have inner := flattens_inOrder args s
    have rest := flattens_inOrder ts (FreshSupply.next f (inOrder (args.map Term.flatten) s).2).2
    rw [List.map_cons, Term.flatten]
    exact .app inner rest

namespace Flattens

variable {s t : FreshSupply} {ts flats : List Term} {ds : List Definition}

/-- `s.Issues (ds.map Definition.value) t`: the fresh variables are handed out in order. -/
theorem issues (h : Flattens s ts flats ds t) : s.Issues (ds.map Definition.value) t := by
  induction h with
  | nil => exact .refl _
  | var _ ih => exact ih
  | @app s t u f args flatArgs ts flats ds es _ _ inner rest =>
    rw [List.map_append, List.map_append, List.map_singleton]
    exact (inner.append (FreshSupply.issues_next f t)).append rest

/-- `ds.map Definition.application`: there is one definition for each application, in the same
order. -/
theorem map_application (h : Flattens s ts flats ds t) :
    ds.map Definition.application = ts.flatMap Term.applications ∧ flats.length = ts.length := by
  induction h with
  | nil => exact ⟨rfl, rfl⟩
  | var _ ih =>
    rw [List.flatMap_cons, List.length_cons, List.length_cons, ih.1, ih.2, Term.applications]
    exact ⟨rfl, rfl⟩
  | app _ _ inner rest =>
    rw [List.map_append, List.map_append, List.map_singleton, inner.1, rest.1, List.flatMap_cons,
      Term.applications, Definition.application, inner.2, List.length_cons, List.length_cons,
      rest.2]
    exact ⟨rfl, rfl⟩

/-- Each definition stands for an application in the terms. -/
theorem application_mem (h : Flattens s ts flats ds t) {d : Definition} (mem : d ∈ ds) :
    d.application ∈ ts.flatMap Term.applications := by
  rw [← h.map_application.1]
  exact List.mem_map_of_mem mem

/-- `t.isApplication = false`: nothing is applied any more, neither in the flat terms nor in the
definitions. -/
theorem plain (h : Flattens s ts flats ds t) :
    (∀ t ∈ flats, t.isApplication = false) ∧
      ∀ d ∈ ds, ∀ t ∈ d.args, t.isApplication = false := by
  induction h with
  | nil => exact ⟨List.forall_mem_nil _, List.forall_mem_nil _⟩
  | var _ ih => exact ⟨List.forall_mem_cons.2 ⟨rfl, ih.1⟩, ih.2⟩
  | app _ _ inner rest =>
    refine ⟨List.forall_mem_cons.2 ⟨rfl, rest.1⟩, ?_⟩
    rw [List.forall_mem_append, List.forall_mem_append, List.forall_mem_singleton]
    exact ⟨⟨inner.2, inner.1⟩, rest.2⟩

/-- `flats.map (Term.value S v)`: under the definitions the flat terms have the values of the
terms. -/
theorem map_value (h : Flattens s ts flats ds t) (S : Structure D) (v : Valuation D)
    (holds : ∀ d ∈ ds, d.Holds S v) : flats.map (Term.value S v) = ts.map (Term.value S v) := by
  induction h with
  | nil => rfl
  | var _ ih => rw [List.map_cons, List.map_cons, ih holds]
  | app _ _ inner rest =>
    rw [List.forall_mem_append, List.forall_mem_append, List.forall_mem_singleton] at holds
    obtain ⟨⟨before, here⟩, after⟩ := holds
    rw [Definition.Holds, inner before] at here
    rw [List.map_cons, List.map_cons, rest after, Term.value, Term.value, here]

/-- Except for the fresh variables, the flat terms and the definitions have the variables of the
terms. -/
theorem mem_occurrences_iff (h : Flattens s ts flats ds t) {x : String}
    (old : x ∉ ds.map Definition.value) :
    (x ∈ flats.flatMap Term.occurrences ∨
      x ∈ ds.flatMap fun d => d.args.flatMap Term.occurrences) ↔
        x ∈ ts.flatMap Term.occurrences := by
  induction h with
  | nil => simp
  | var _ ih =>
    rw [List.flatMap_cons, List.flatMap_cons, List.mem_append, List.mem_append, or_assoc, ih old]
  | app _ _ inner rest =>
    simp only [List.map_append, List.map_cons, List.map_nil, List.mem_append, List.mem_singleton,
      not_or] at old
    -- The variable is none of the fresh ones of the arguments, of the application, of the rest.
    obtain ⟨⟨before, here⟩, after⟩ := old
    have first := inner before
    have second := rest after
    simp only [List.flatMap_cons, List.flatMap_append, List.flatMap_nil, List.append_nil,
      List.mem_append, Term.occurrences, List.mem_singleton, here, false_or]
    rw [← first, ← second]
    simp only [or_comm, or_left_comm]

/-- `x ∈ t.taken`: the variables of the flat terms and of the definitions are taken in the end. -/
theorem mem_taken (h : Flattens s ts flats ds t)
    (known : ∀ x ∈ ts.flatMap Term.occurrences, x ∈ s.taken) :
    (∀ x ∈ flats.flatMap Term.occurrences, x ∈ t.taken) ∧
      ∀ d ∈ ds, ∀ x ∈ d.occurrences, x ∈ t.taken := by
  -- A variable that is not fresh is one of the terms.
  have old : ∀ x, (x ∈ flats.flatMap Term.occurrences ∨
      x ∈ ds.flatMap fun d => d.args.flatMap Term.occurrences) → x ∈ t.taken := by
    intro x mem
    rw [h.issues.mem_taken]
    by_cases new : x ∈ ds.map Definition.value
    · exact .inl new
    · exact .inr (known x ((h.mem_occurrences_iff new).1 mem))
  refine ⟨fun x mem => old x (.inl mem), fun d hd x mem => ?_⟩
  rcases List.mem_cons.1 mem with rfl | arg
  · exact h.issues.mem_taken.2 (.inl (List.mem_map_of_mem hd))
  · exact old x (.inr (List.mem_flatMap.2 ⟨d, hd, arg⟩))

/-- No definition speaks of a variable that is defined later, and none of its own. -/
theorem ordered (h : Flattens s ts flats ds t)
    (known : ∀ x ∈ ts.flatMap Term.occurrences, x ∈ s.taken) :
    (∀ d ∈ ds, d.value ∉ d.args.flatMap Term.occurrences) ∧
      ds.Pairwise fun d e => e.value ∉ d.occurrences := by
  induction h with
  | nil => exact ⟨List.forall_mem_nil _, .nil⟩
  | var _ ih =>
    rw [List.flatMap_cons, List.forall_mem_append] at known
    exact ih known.2
  | @app s t u f args flatArgs ts flats ds es inner rest ihInner ihRest =>
    simp only [List.flatMap_cons, List.forall_mem_append, Term.occurrences] at known
    -- The arguments use only what is taken when the variable for the application is handed out.
    have next := FreshSupply.issues_next f t
    have fresh := next.fresh _ List.mem_cons_self
    have later : ∀ x ∈ t.taken, x ∈ (FreshSupply.next f t).2.taken :=
      fun x mem => next.mem_taken.2 (.inr mem)
    obtain ⟨takenArgs, takenDefinitions⟩ := inner.mem_taken known.1
    obtain ⟨ownBefore, before⟩ := ihInner known.1
    obtain ⟨ownAfter, after⟩ := ihRest fun x mem =>
      later x (inner.issues.mem_taken.2 (.inr (known.2 x mem)))
    refine ⟨?_, List.pairwise_append.2 ⟨List.pairwise_append.2
      ⟨before, List.pairwise_singleton _ _, ?_⟩, after, ?_⟩⟩
    · simp only [List.forall_mem_append, List.forall_mem_singleton]
      exact ⟨⟨ownBefore, fun mem => fresh (takenArgs _ mem)⟩, ownAfter⟩
    · -- A definition of the arguments speaks of variables handed out earlier.
      intro d hd e he mem
      rw [List.mem_singleton.1 he] at mem
      exact fresh (takenDefinitions d hd _ mem)
    · -- A variable handed out for the rest is none that was taken before.
      intro d hd e he mem
      apply rest.issues.fresh e.value (List.mem_map_of_mem he)
      rcases List.mem_append.1 hd with earlier | here
      · exact later _ (takenDefinitions d earlier _ mem)
      · rw [List.mem_singleton.1 here] at mem
        rcases List.mem_cons.1 mem with same | arg
        · exact same ▸ next.mem_taken.2 (.inl List.mem_cons_self)
        · exact later _ (takenArgs _ arg)

/-- `v.AgreesOutside (ds.map Definition.value) w`: any valuation can be changed at the fresh
variables so that the definitions hold. -/
theorem exists_holds (h : Flattens s ts flats ds t)
    (known : ∀ x ∈ ts.flatMap Term.occurrences, x ∈ s.taken) (S : Structure D) (v : Valuation D) :
    ∃ w, v.AgreesOutside (ds.map Definition.value) w ∧ ∀ d ∈ ds, d.Holds S w :=
  Definition.exists_holds S (h.ordered known).1 (h.ordered known).2 v

end Flattens

end ClausalForm
