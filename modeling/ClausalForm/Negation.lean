import ClausalForm.Formula.Construct

/-! # Negation normal form

A formula is in negation normal form if every negation stands directly at an atom.

* **`Formula.pushStep`**: one step of moving a negation inwards, by De Morgan's laws, the duality
  of the quantifiers, or the cancellation of two negations.
* **`Formula.pushNegations`**: the steps taken until the form is reached. The formula is worked off
  with a list of tasks and a list of finished subformulas, so that its depth does not matter.
* **`Formula.isNegationNormal`**: the test for the form.

The tasks end because each step makes the work that is left smaller: a negation doubles the weight
of what it stands at (`weight`, `weight_pushStep`). -/

namespace ClausalForm.Formula

/-- `pushStep φ`: one step of moving a negation inwards. A formula that is no negation, and the
negation of an atom, stay as they are. -/
def pushStep : Formula → Formula
  | .not (.connective op φs) => .connective op.dual (φs.map .not)
  | .not (.quantified q xs φ) => .quantified q.dual xs (.not φ)
  | .not (.not φ) => φ
  | φ => φ

/-- `φ.isNegationNormal`: whether every negation stands directly at an atom. -/
def isNegationNormal : Formula → Bool
  | .atom _ => true
  | .not φ => φ.isAtom
  | .connective _ φs => (φs.map isNegationNormal).all id
  | .quantified _ _ φ => φ.isNegationNormal

mutual

/-- `φ.weight`: the work that a formula takes until all negations are pushed. A negation doubles it,
so that each step of `pushStep` leaves less. -/
def weight : Formula → Nat
  | .atom _ => 1
  | .not φ => 2 * φ.weight
  | .connective _ φs => 2 + totalWeight φs
  | .quantified _ _ φ => 2 + φ.weight

/-- `totalWeight φs`: the work that the formulas of a list take together. -/
def totalWeight : List Formula → Nat
  | [] => 0
  | φ :: φs => φ.weight + totalWeight φs

end

/-- `0 < φ.weight`: every formula takes some work. -/
theorem weight_pos (φ : Formula) : 0 < φ.weight := by
  induction φ using induction with
  | atom a => simp [weight]
  | not φ ih => simp [weight, ih]
  | connective op φs ih => simp only [weight]; omega
  | quantified q xs φ ih => simp only [weight]; omega

/-- `totalWeight (φs.map .not) = 2 * totalWeight φs`: negating each formula of a list doubles the
work. -/
theorem totalWeight_map_not (φs : List Formula) :
    totalWeight (φs.map .not) = 2 * totalWeight φs := by
  induction φs with
  | nil => rfl
  | cons φ φs ih => simp only [List.map_cons, totalWeight, weight, ih]; omega

/-- `pushStep` on the negation of a compound formula leaves less work, by which `runTasks` ends. -/
theorem weight_pushStep {φ : Formula} (compound : φ.isAtom = false) :
    (pushStep (.not φ)).weight < (Formula.not φ).weight := by
  cases φ with
  | atom a => simp [isAtom] at compound
  | not φ => have := weight_pos φ; simp only [pushStep, weight]; omega
  | connective op φs => simp only [pushStep, weight, totalWeight_map_not]; omega
  | quantified q xs φ => simp only [pushStep, weight]; omega

/-- A task of the machine: what is left to do, and in which order. -/
inductive Task where
  /-- Push the negations of a formula. -/
  | visit (φ : Formula)
  /-- Join as many finished subformulas into a connective. -/
  | join (op : Connective) (count : Nat)
  /-- Put a quantifier in front of the last finished subformula. -/
  | bind (q : Quantifier) (bound : List String)

/-- `t.weight`: the work of a task, for a visit that of its formula. -/
def Task.weight : Task → Nat
  | visit φ => φ.weight
  | join .. => 1
  | bind .. => 1

/-- `tasksWeight ts`: the work of a list of tasks. -/
def tasksWeight : List Task → Nat
  | [] => 0
  | t :: ts => t.weight + tasksWeight ts

/-- `visitAll φs`: the tasks of visiting each of a list of formulas. -/
def visitAll (φs : List Formula) : List Task := φs.map .visit

/-- `tasksWeight (ts ++ us)`: the work of two lists of tasks adds up. -/
theorem tasksWeight_append (ts us : List Task) :
    tasksWeight (ts ++ us) = tasksWeight ts + tasksWeight us := by
  induction ts with
  | nil => simp only [List.nil_append, tasksWeight]; omega
  | cons t ts ih => simp only [List.cons_append, tasksWeight, ih]; omega

/-- `tasksWeight (visitAll φs) = totalWeight φs`: visiting formulas takes the work that they
take. -/
theorem tasksWeight_visitAll (φs : List Formula) : tasksWeight (visitAll φs) = totalWeight φs := by
  induction φs with
  | nil => rfl
  | cons φ φs ih =>
    simp only [visitAll, List.map_cons, tasksWeight, Task.weight, totalWeight] at ih ⊢
    omega

/-- Works off a list of tasks. `finished` are the subformulas that are done and not yet part of
another one, the last one first. -/
def runTasks : List Task → List Formula → Except NormalizationError Formula
  | [], finished =>
    match finished with
    | φ :: _ => .ok φ
    | [] => .error (.malformed .lostSubformula)
  | .visit (.atom a) :: tasks, finished => runTasks tasks (.atom a :: finished)
  | .visit (.not φ) :: tasks, finished =>
    if φ.isAtom then runTasks tasks (.not φ :: finished)
    else runTasks (.visit (pushStep (.not φ)) :: tasks) finished
  | .visit (.connective op φs) :: tasks, finished =>
    runTasks (visitAll φs ++ .join op φs.length :: tasks) finished
  | .visit (.quantified q xs φ) :: tasks, finished =>
    runTasks (.visit φ :: .bind q xs :: tasks) finished
  | .join op count :: tasks, finished =>
    -- The members were finished in order, so that the last one comes first.
    if finished.length < count then .error (.malformed .lostSubformula)
    else
      match combine op (finished.take count).reverse with
      | .ok φ => runTasks tasks (φ :: finished.drop count)
      | .error e => .error e
  | .bind q xs :: tasks, finished =>
    match finished with
    | φ :: rest => runTasks tasks (.quantified q xs φ :: rest)
    | [] => .error (.malformed .lostSubformula)
termination_by tasks => tasksWeight tasks
decreasing_by
  all_goals simp only [tasksWeight, tasksWeight_append, tasksWeight_visitAll, Task.weight, weight]
  · omega
  · have := weight_pos φ; omega
  · rename_i h
    have := weight_pushStep (by simpa using h)
    simp only [weight] at this
    omega
  · omega
  · omega
  · omega
  · omega

/-- **Negation normal form.** `φ.pushNegations`: the formula with every negation pushed down to an
atom, as `runTasks` finds it. A connective that comes to stand in one of its own kind is absorbed by
it. -/
def pushNegations (φ : Formula) : Except NormalizationError Formula := runTasks [.visit φ] []

end ClausalForm.Formula
