import ClausalForm.Negation
import ClausalForm.Proofs.Rewriting
import ClausalForm.Quantifier.Count

/-! # Negations pushed down

`Formula.pushNegations` works with a list of tasks. It computes what `Formula.pushed` computes by
recursion on the formula and the sign under which it is met.

* **`Formula.runTasks_visit`**: visiting a formula puts the result of the recursion on the finished
  subformulas.
* **`Formula.exists_pushNegations`**: formulas without empty connectives have a negation normal
  form, which is well-formed and may replace them. -/

namespace ClausalForm

/-- `leaves.literals`: what leaves may be if only atoms are negated. -/
def Leaves.literals (leaves : Leaves) : Leaves := { leaves with compound := False }

/-- `op.signed positive`: the connective of a formula that is met under a sign. -/
def Connective.signed (positive : Bool) (op : Connective) : Connective :=
  if positive then op else op.dual

/-- `q.signed positive`: the quantifier of a formula that is met under a sign. -/
def Quantifier.signed (positive : Bool) (q : Quantifier) : Quantifier :=
  if positive then q else q.dual

namespace Formula

variable {leaves : Leaves} {op : Connective} {q : Quantifier} {xs : List String}
  {φ ψ : Formula} {φs ψs : List Formula} {tasks : List Task} {finished : List Formula}

/-! ## By recursion -/

/-- `φ.signed positive`: a formula under a sign, which is itself or its negation. -/
def signed (positive : Bool) (φ : Formula) : Formula := if positive then φ else .not φ

/-- **The recursion behind the machine.** `φ.pushed positive`: a formula under a sign, with every
negation pushed down to an atom. -/
def pushed (positive : Bool) : Formula → Except NormalizationError Formula
  | .atom a => .ok ((Formula.atom a).signed positive)
  | .not φ => φ.pushed (!positive)
  | .connective op φs => do
    let ψs ← inOrder (φs.map (pushed positive))
    combine (op.signed positive) ψs
  | .quantified q xs φ => .quantified (q.signed positive) xs <$> φ.pushed positive

/-- `runTasks (visitAll …)`: visiting formulas one after the other puts all results on the finished
ones, the last one first, if visiting each of them puts its result there. -/
theorem runTasks_visitAll {f : Formula → Formula} {p : Formula → Except NormalizationError Formula}
    (each : ∀ φ ∈ φs, ∀ tasks finished, runTasks (.visit (f φ) :: tasks) finished =
      p φ >>= fun ψ => runTasks tasks (ψ :: finished)) :
    runTasks (visitAll (φs.map f) ++ tasks) finished =
      inOrder (φs.map p) >>= fun ψs => runTasks tasks (ψs.reverse ++ finished) := by
  induction φs generalizing finished with
  | nil => rfl
  | cons φ φs ih =>
    rw [List.forall_mem_cons] at each
    simp only [visitAll, List.map_cons, List.cons_append, inOrder] at ih ⊢
    rw [each.1]
    -- The first failure ends the run on both sides.
    cases first : p φ with
    | error e => rfl
    | ok ψ =>
      simp only [bind, Except.bind] at ih ⊢
      rw [ih each.2]
      cases inOrder (φs.map p) with
      | error e => rfl
      | ok ψs => simp [pure, Except.pure]

/-- `runTasks (.join op count :: tasks)`: joining the finished results of some formulas. -/
theorem runTasks_join (count : Nat) (same : ψs.length = count) :
    runTasks (.join op count :: tasks) (ψs.reverse ++ finished) =
      combine op ψs >>= fun ψ => runTasks tasks (ψ :: finished) := by
  subst same
  have enough : ¬ (ψs.reverse ++ finished).length < ψs.length := by simp
  have taken : ((ψs.reverse ++ finished).take ψs.length).reverse = ψs := by
    rw [List.take_left' (List.length_reverse ..), List.reverse_reverse]
  have left : (ψs.reverse ++ finished).drop ψs.length = finished :=
    List.drop_left' (List.length_reverse ..)
  rw [runTasks, if_neg enough, taken, left]
  cases combine op ψs <;> rfl

/-- `runTasks (.visit (connective op …) :: tasks)`: visiting a connective of formulas under a
sign. -/
theorem runTasks_connective {positive : Bool}
    (each : ∀ φ ∈ φs, ∀ tasks finished, runTasks (.visit (φ.signed positive) :: tasks) finished =
      φ.pushed positive >>= fun ψ => runTasks tasks (ψ :: finished)) :
    runTasks (.visit (.connective op (φs.map (signed positive))) :: tasks) finished =
      (inOrder (φs.map (pushed positive)) >>= combine op) >>= fun ψ =>
        runTasks tasks (ψ :: finished) := by
  rw [runTasks, runTasks_visitAll each, List.length_map]
  cases results : inOrder (φs.map (pushed positive)) with
  | error e => rfl
  | ok ψs =>
    have same : ψs.length = φs.length := (inOrder_map_eq_ok.1 results).length_eq.symm
    exact runTasks_join φs.length same

/-- `runTasks (.visit (quantified q xs …) :: tasks)`: visiting a quantifier over a formula under a
sign. -/
theorem runTasks_quantified {positive : Bool}
    (body : ∀ tasks finished, runTasks (.visit (φ.signed positive) :: tasks) finished =
      φ.pushed positive >>= fun ψ => runTasks tasks (ψ :: finished)) :
    runTasks (.visit (.quantified q xs (φ.signed positive)) :: tasks) finished =
      (.quantified q xs <$> φ.pushed positive) >>= fun ψ => runTasks tasks (ψ :: finished) := by
  rw [runTasks, body]
  cases φ.pushed positive with
  | error e => rfl
  | ok ψ => simp only [bind, Except.bind, Functor.map, Except.map, runTasks]

/-- `runTasks (.visit (φ.signed positive) :: tasks)`: visiting a formula under a sign puts the
result of the recursion on the finished ones. -/
theorem runTasks_visit (positive : Bool) (φ : Formula) (tasks : List Task)
    (finished : List Formula) : runTasks (.visit (φ.signed positive) :: tasks) finished =
      φ.pushed positive >>= fun ψ => runTasks tasks (ψ :: finished) := by
  -- Under the negative sign the first step moves the negation inwards; from then on each member is
  -- visited under its own sign.
  induction φ using induction generalizing positive tasks finished with
  | atom a =>
    cases positive with
    | true =>
      simp only [signed, if_true, runTasks, pushed]
      rfl
    | false =>
      simp [signed, runTasks, pushed, isAtom]
      rfl
  | not φ ih =>
    rw [pushed, ← ih]
    cases positive with
    | true => rfl
    | false => simp [signed, runTasks, isAtom, pushStep]
  | connective op φs ih =>
    have step : runTasks (.visit ((Formula.connective op φs).signed positive) :: tasks) finished =
        runTasks (.visit (.connective (op.signed positive) (φs.map (signed positive))) :: tasks)
          finished := by
      cases positive with
      | true =>
        have same : φs.map (signed true) = φs := List.map_id'' (fun _ => rfl) φs
        rw [same]
        rfl
      | false =>
        have same : φs.map .not = φs.map (signed false) := rfl
        simp only [signed, Bool.false_eq_true, if_false, runTasks, isAtom, pushStep, same]
        rfl
    rw [step, pushed]
    exact runTasks_connective fun φ mem => ih φ mem positive
  | quantified q xs φ ih =>
    have step : runTasks (.visit ((Formula.quantified q xs φ).signed positive) :: tasks) finished =
        runTasks (.visit (.quantified (q.signed positive) xs (φ.signed positive)) :: tasks)
          finished := by
      cases positive with
      | true => rfl
      | false => simp [signed, Quantifier.signed, runTasks, isAtom, pushStep]
    rw [step, pushed]
    exact runTasks_quantified (ih positive)

/-- `φ.pushNegations = φ.pushed true`: pushing negations down is the recursion. -/
theorem pushNegations_eq_pushed (φ : Formula) : φ.pushNegations = φ.pushed true := by
  have run := runTasks_visit true φ [] []
  rw [pushNegations]
  refine run.trans ?_
  cases φ.pushed true with
  | error e => rfl
  | ok ψ => simp only [bind, Except.bind, runTasks]

/-! ## What it keeps -/

/-- Two negations cancel out. -/
theorem rewrites_signed_not (positive : Bool) (φ : Formula) :
    Rewrites ((Formula.not φ).signed positive) (φ.signed (!positive)) := by
  cases positive with
  | true => exact .refl _
  | false =>
    refine .of_same_variables ?_ ?_ ?_ ?_
    · intro D S v
      show φ.Holds S v ↔ (Formula.not (.not φ)).Holds S v
      simp only [Holds, Classical.not_not]
    · show φ.signature = (Formula.not (.not φ)).signature
      rw [signature_not, signature_not]
    · show φ.freeOccurrences = (Formula.not (.not φ)).freeOccurrences
      rw [freeOccurrences_not, freeOccurrences_not]
    · show φ.boundVariables = (Formula.not (.not φ)).boundVariables
      rw [boundVariables_not, boundVariables_not]

/-- A sign in front of a connective, by De Morgan's laws. -/
theorem rewrites_signed_connective (positive : Bool) (op : Connective) (φs : List Formula) :
    Rewrites ((Formula.connective op φs).signed positive)
      (.connective (op.signed positive) (φs.map (signed positive))) := by
  cases positive with
  | true =>
    have same : φs.map (signed true) = φs := List.map_id'' (fun _ => rfl) φs
    rw [same]
    exact .refl _
  | false =>
    -- Not all hold exactly if the negation of one holds, and the other way round.
    have same : φs.map (signed false) = φs.map .not := rfl
    rw [same]
    refine .of_same_variables ?_ ?_ ?_ ?_
    · intro D S v
      have dual := op.joins_dual (φs.map fun φ => φ.Holds S v)
      simp only [List.map_map] at dual
      simp only [Connective.signed, signed, Bool.false_eq_true, if_false, Holds, List.map_map]
      rw [← dual]
      refine op.dual.joins_congr ?_
      intro φ _
      simp only [Function.comp, Holds]
    · show (Formula.connective op.dual (φs.map .not)).signature =
        (Formula.not (.connective op φs)).signature
      simp only [signature_connective, signature_not, List.flatMap_map]
    · show (Formula.connective op.dual (φs.map .not)).freeOccurrences =
        (Formula.not (.connective op φs)).freeOccurrences
      simp only [freeOccurrences_connective, freeOccurrences_not, List.flatMap_map]
    · show (Formula.connective op.dual (φs.map .not)).boundVariables =
        (Formula.not (.connective op φs)).boundVariables
      simp only [boundVariables_connective, boundVariables_not, List.flatMap_map]

/-- A sign in front of a quantifier, by duality. -/
theorem rewrites_signed_quantified (positive : Bool) (q : Quantifier) (xs : List String)
    (φ : Formula) : Rewrites ((Formula.quantified q xs φ).signed positive)
      (.quantified (q.signed positive) xs (φ.signed positive)) := by
  cases positive with
  | true => exact .refl _
  | false =>
    -- Only the truth needs an argument: the two sides are the same formula up to the order of
    -- quantifier and negation.
    refine .of_same_variables ?_ ?_ ?_ ?_
    · intro D S v
      show (Formula.quantified q.dual xs (.not φ)).Holds S v ↔
        (Formula.not (.quantified q xs φ)).Holds S v
      simp only [Holds]
      exact q.ranges_dual
    · show (Formula.quantified q.dual xs (.not φ)).signature =
        (Formula.not (.quantified q xs φ)).signature
      rw [signature_quantified, signature_not, signature_not, signature_quantified]
    · show (Formula.quantified q.dual xs (.not φ)).freeOccurrences =
        (Formula.not (.quantified q xs φ)).freeOccurrences
      simp only [freeOccurrences]
    · show (Formula.quantified q.dual xs (.not φ)).boundVariables =
        (Formula.not (.quantified q xs φ)).boundVariables
      rw [boundVariables_not, boundVariables_quantified, boundVariables_quantified,
        boundVariables_not]

/-- `φ.pushed positive = .ok ψ`: the recursion succeeds on formulas without empty connectives, and
its result may replace the formula under the sign. -/
theorem exists_pushed (populated : φ.Populated leaves) (positive : Bool) :
    ∃ ψ, φ.pushed positive = .ok ψ ∧ Rewrites (φ.signed positive) ψ ∧
      ψ.WellFormed leaves.literals := by
  induction populated generalizing positive with
  | @atom a allowed =>
    refine ⟨_, by rw [pushed], .refl _, ?_⟩
    cases positive with
    | true => exact .atom allowed
    | false => exact .not (.inl rfl) (.atom allowed)
  | @not φ _ _ ih =>
    -- A negation turns the sign of its body.
    obtain ⟨ψ, pushing, rewrites, literal⟩ := ih (!positive)
    exact ⟨ψ, by rw [pushed, pushing], (rewrites_signed_not positive φ).trans rewrites, literal⟩
  | @connective op φs some _ ih =>
    obtain ⟨ψs, pushing, each⟩ := exists_inOrder_map fun φ mem => ih φ mem positive
    have literal : ∀ ψ ∈ ψs, ψ.WellFormed leaves.literals :=
      forall_right_of_forall₂ each fun _ _ h => h.2
    have rewrites : List.Forall₂ Rewrites (φs.map (signed positive)) ψs :=
      List.forall₂_map_left_iff.2 (each.imp fun _ _ h => h.1)
    obtain ⟨ψ, built⟩ :=
      exists_combine (op.signed positive) (ne_nil_of_forall₂ each some) literal
    refine ⟨ψ, by rw [pushed]; exact bind_eq_ok_iff.2 ⟨ψs, pushing, built⟩, ?_,
      .of_combine literal built⟩
    exact (rewrites_signed_connective positive op φs).trans
      ((Rewrites.connective rewrites).trans (.of_combine built))
  | @quantified q xs φ binder _ ih =>
    obtain ⟨ψ, pushing, rewrites, literal⟩ := ih positive
    refine ⟨_, by rw [pushed]; exact map_eq_ok_iff.2 ⟨ψ, pushing, rfl⟩, ?_,
      .quantified binder literal⟩
    exact (rewrites_signed_quantified positive q xs φ).trans rewrites.quantified

/-- `ψ.quantifierCount = φ.quantifierCount`: the recursion keeps the number of quantifiers. -/
theorem quantifierCount_pushed {positive : Bool} (h : φ.pushed positive = .ok ψ) :
    ψ.quantifierCount = φ.quantifierCount := by
  induction φ using induction generalizing positive ψ with
  | atom a =>
    rw [pushed] at h
    cases h
    cases positive <;> rfl
  | not φ ih =>
    rw [pushed] at h
    rw [ih h, quantifierCount]
  | connective op φs ih =>
    rw [pushed] at h
    obtain ⟨ψs, pushing, built⟩ := bind_eq_ok_iff.1 h
    rw [quantifierCount_combine built, quantifierCount_connective]
    have each := inOrder_map_eq_ok.1 pushing
    clear h pushing built
    -- Member by member, by a second induction.
    induction each with
    | nil => rfl
    | cons first _ rest =>
      rw [List.forall_mem_cons] at ih
      rw [totalCount_cons, totalCount_cons, ih.1 first, rest ih.2]
  | quantified q xs φ ih =>
    rw [pushed] at h
    obtain ⟨χ, pushing, rfl⟩ := map_eq_ok_iff.1 h
    rw [quantifierCount, quantifierCount, ih pushing]

/-- `φ.pushNegations = .ok ψ`: every formula without empty connectives has a negation normal form
that may replace it. -/
theorem exists_pushNegations (populated : φ.Populated leaves) :
    ∃ ψ, φ.pushNegations = .ok ψ ∧ Rewrites φ ψ ∧ ψ.WellFormed leaves.literals := by
  rw [pushNegations_eq_pushed]
  exact exists_pushed populated true

end Formula

end ClausalForm
