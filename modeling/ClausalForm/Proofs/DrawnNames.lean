import ClausalForm.Proofs.FunctionElimination

/-! # Names drawn by elimination

Elimination of functions, of any formula and also where it fails, changes a supply of fresh names
by calls of `FreshSupply.next` only.

* **`FreshSupply.draw`**: names for some functions, one after the other.
* **`FreshSupply.handedOut`**: the names handed out between two supplies.
* **`Threaded.Draws`**: a computation that draws names, and what it returns with them.
* **`Formula.draws_eliminateFunctions`**: elimination draws a name for each application. -/

namespace ClausalForm

/-! ## Names for some functions -/

namespace FreshSupply

variable {s t : FreshSupply} {names : List String}

/-- `draw fs`: the next names for some functions. -/
def draw (fs : List String) : StateM FreshSupply (List String) := inOrder (fs.map next)

/-- `draw (f :: fs) s`: the name for the first function comes before those for the others. -/
theorem draw_cons (f : String) (fs : List String) (s : FreshSupply) :
    draw (f :: fs) s =
      ((next f s).1 :: (draw fs (next f s).2).1, (draw fs (next f s).2).2) := rfl

/-- `draw (fs ++ gs) s`: names for some functions before those for others. -/
theorem draw_append (fs gs : List String) (s : FreshSupply) :
    draw (fs ++ gs) s =
      ((draw fs s).1 ++ (draw gs (draw fs s).2).1, (draw gs (draw fs s).2).2) := by
  induction fs generalizing s with
  | nil => rfl
  | cons f fs ih =>
    rw [List.cons_append, draw_cons, ih, draw_cons]
    rfl

/-- `s.Issues (draw fs s).1 (draw fs s).2`: drawn names are handed out. -/
theorem issues_draw (fs : List String) (s : FreshSupply) :
    s.Issues (draw fs s).1 (draw fs s).2 := by
  induction fs generalizing s with
  | nil => exact .refl s
  | cons f fs ih =>
    rw [draw_cons]
    exact (issues_next f s).append (ih _)

/-- The names that have been handed out when `t` is reached from `s`, the first one first. -/
def handedOut (s t : FreshSupply) : List String :=
  (t.taken.take (t.taken.length - s.taken.length)).reverse

/-- `handedOut s t = names`: names handed out are read off the supply that is reached. -/
theorem Issues.handedOut_eq (h : s.Issues names t) : handedOut s t = names := by
  have size : t.taken.length - s.taken.length = names.reverse.length := by
    rw [h.taken, List.length_append, Nat.add_sub_cancel]
  rw [handedOut, size, h.taken, List.take_left, List.reverse_reverse]

end FreshSupply

/-- `draw (ds.map Definition.function) s`: a run of flattening draws a name for each definition. -/
theorem Flattens.draw_eq {s t : FreshSupply} {ts flats : List Term} {ds : List Definition}
    (h : Flattens s ts flats ds t) :
    FreshSupply.draw (ds.map Definition.function) s = (ds.map Definition.value, t) := by
  induction h with
  | nil => rfl
  | var _ ih => exact ih
  | @app s t u f args flatArgs ts flats ds es _ _ inner rest =>
    rw [List.map_append, List.map_append, List.map_singleton, List.append_assoc,
      FreshSupply.draw_append, inner, List.singleton_append, FreshSupply.draw_cons, rest,
      List.map_append, List.map_append, List.map_singleton, List.append_assoc,
      List.singleton_append]

/-! ## Computations that draw names -/

namespace Threaded

variable {ε α β : Type} {s : FreshSupply} {fs gs : List String} {x : Threaded FreshSupply ε α}
  {returned : List String → α → Prop}

/-- From the supply `s` the computation draws names for the first ones of the functions `fs`. If it
returns, it has drawn names for all of them and returns what `returned` says of these names. -/
def Draws (x : Threaded FreshSupply ε α) (s : FreshSupply) (fs : List String)
    (returned : List String → α → Prop) : Prop :=
  ∃ drawn, drawn <+: fs ∧ (x s).2 = (FreshSupply.draw drawn s).2 ∧
    ∀ a, (x s).1.result = .ok a → drawn = fs ∧ returned (FreshSupply.draw fs s).1 a

/-- `ofRecorded r` leaves the supply alone, and draws nothing. -/
theorem draws_ofRecorded {r : Recorded ε α} (holds : ∀ a, r.result = .ok a → returned [] a) :
    (ofRecorded r : Threaded FreshSupply ε α).Draws s [] returned :=
  ⟨[], List.prefix_refl [], rfl, fun a ok => ⟨rfl, holds a ok⟩⟩

/-- A value without any step draws nothing. -/
theorem draws_pure {a : α} (holds : returned [] a) :
    (pure a : Threaded FreshSupply ε α).Draws s [] returned :=
  draws_ofRecorded fun b same => by
    cases same
    exact holds

/-- `x >>= f` draws what `x` draws, and then what `f` does. -/
theorem Draws.bind {f : α → Threaded FreshSupply ε β} {returned' : List String → β → Prop}
    (first : x.Draws s fs returned)
    (second : ∀ names a, returned names a →
      (f a).Draws (FreshSupply.draw fs s).2 gs fun more b => returned' (names ++ more) b) :
    (x >>= f).Draws s (fs ++ gs) returned' := by
  obtain ⟨drawn, begins, reached, whole⟩ := first
  show Draws (andThen x f) s (fs ++ gs) returned'
  unfold Draws andThen
  -- If the first part fails, fewer names are drawn than were asked for.
  match run : x s with
  | (⟨.error e, log⟩, t) =>
    rw [run] at reached
    refine ⟨drawn, begins.trans (List.prefix_append fs gs), reached, fun b ok => ?_⟩
    cases ok
  | (⟨.ok a, log⟩, t) =>
    rw [run] at reached whole
    obtain ⟨rfl, holds⟩ := whole a rfl
    obtain ⟨drawn', begins', reached', whole'⟩ := second _ a holds
    rw [← reached] at reached' whole'
    refine ⟨drawn ++ drawn', (List.prefix_append_right_inj drawn).2 begins', ?_, fun b ok => ?_⟩
    · rw [FreshSupply.draw_append, ← reached]
      exact reached'
    · obtain ⟨rfl, holds'⟩ := whole' b ok
      refine ⟨rfl, ?_⟩
      rw [FreshSupply.draw_append, ← reached]
      exact holds'

/-- A result made of the value draws nothing more. -/
theorem Draws.bind_ofRecorded {f : α → Recorded ε β} {returned' : List String → β → Prop}
    (h : x.Draws s fs returned)
    (value : ∀ names a b, returned names a → (f a).result = .ok b → returned' names b) :
    (x >>= fun a => ofRecorded (f a)).Draws s fs returned' := by
  rw [← List.append_nil fs]
  refine h.bind fun names a holds => draws_ofRecorded fun b ok => ?_
  rw [List.append_nil]
  exact value names a b holds ok

/-- A function of the value. -/
theorem Draws.map {f : α → β} {returned' : List String → β → Prop} (h : x.Draws s fs returned)
    (value : ∀ names a, returned names a → returned' names (f a)) :
    (f <$> x).Draws s fs returned' :=
  h.bind_ofRecorded fun names a b holds ok => by
    cases ok
    exact value names a holds

end Threaded

/-! ## Elimination -/

namespace Formula

variable {φ : Formula} {s : FreshSupply}

/-- `l.toFormula.eliminateFunctions`: a literal is rewritten with a name for each application in
it. -/
theorem draws_eliminateFunctions_literal (l : Literal) (s : FreshSupply) :
    l.toFormula.eliminateFunctions.Draws s (l.toFormula.applications.map Prod.fst)
      fun names ψ => ψ.boundVariables.Perm (l.toFormula.boundVariables ++ names) := by
  obtain ⟨a, positive⟩ := l
  rw [eliminateFunctions_toFormula, applications_toFormula, Literal.boundVariables_toFormula]
  by_cases functions : a.hasFunctions = true
  · have run := flattens_inOrder a.args s
    have drawn := run.draw_eq
    have same : a.applications.map Prod.fst = List.map Definition.function
        ((inOrder (a.args.map Term.flatten) s).1.flatMap Prod.snd) := by
      rw [Atom.applications, ← run.map_application.1, List.map_map]
      rfl
    rw [if_pos functions, same]
    refine ⟨_, List.prefix_refl _, by rw [drawn]; rfl, fun ψ ok => ⟨rfl, ?_⟩⟩
    cases ok
    rw [drawn, List.nil_append]
    exact .of_eq (boundVariables_guarded _ ⟨_, positive⟩)
  · rw [if_neg functions, Atom.hasFunctions_eq_false_iff.1 ((Bool.not_eq_true _).mp functions)]
    exact Threaded.draws_pure (.of_eq (Literal.boundVariables_toFormula _))

/-- `inOrder (φs.map eliminateFunctions)`: the members of a list of formulas draw their names one
after the other. -/
theorem draws_inOrder_eliminateFunctions {φs : List Formula}
    (each : ∀ φ ∈ φs, ∀ s, φ.eliminateFunctions.Draws s (φ.applications.map Prod.fst)
      fun names ψ => ψ.boundVariables.Perm (φ.boundVariables ++ names)) (s : FreshSupply) :
    (inOrder (φs.map eliminateFunctions)).Draws s ((φs.flatMap applications).map Prod.fst)
      fun names ψs =>
        (ψs.flatMap boundVariables).Perm (φs.flatMap boundVariables ++ names) := by
  induction φs generalizing s with
  | nil => exact Threaded.draws_pure .nil
  | cons φ φs ih =>
    rw [List.forall_mem_cons] at each
    rw [List.flatMap_cons, List.map_append, List.map_cons, inOrder]
    refine (each.1 s).bind fun names ψ first => (ih each.2 _).map fun more ψs rest => ?_
    rw [List.flatMap_cons, List.flatMap_cons]
    exact perm_append_append first rest

/-- `φ.eliminateFunctions.Draws s`: eliminating the functions of a formula draws a name for each of
their applications, in order, and binds the names besides what the formula binds. If it fails, it
has drawn names for the first applications. -/
theorem draws_eliminateFunctions (φ : Formula) (s : FreshSupply) :
    φ.eliminateFunctions.Draws s (φ.applications.map Prod.fst)
      fun names ψ => ψ.boundVariables.Perm (φ.boundVariables ++ names) := by
  -- The negation of an atom is eliminated as one literal, and any other negation below it.
  induction φ using induction generalizing s with
  | atom a => exact draws_eliminateFunctions_literal ⟨a, true⟩ s
  | not φ ih =>
    cases φ with
    | atom a => exact draws_eliminateFunctions_literal ⟨a, false⟩ s
    | not | connective | quantified =>
      rw [eliminateFunctions_not rfl, applications]
      refine (ih s).map fun names ψ holds => ?_
      rw [boundVariables_not, boundVariables_not]
      exact holds
  | connective op φs ih =>
    rw [eliminateFunctions, applications]
    refine (draws_inOrder_eliminateFunctions ih s).bind_ofRecorded fun names ψs ψ each built => ?_
    rw [Recorded.result_ofExcept] at built
    rw [boundVariables_of_combine built, boundVariables_connective]
    exact each
  | quantified q xs φ ih =>
    rw [eliminateFunctions, applications]
    refine (ih s).map fun names ψ holds => ?_
    rw [boundVariables_quantified, boundVariables_quantified, List.append_assoc]
    exact holds.append_left xs

end Formula

end ClausalForm
