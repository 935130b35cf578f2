import ClausalForm.Proofs.RefusedQuantifiers
import ClausalForm.Proofs.StepwiseForms

/-! # Distribution again and again

`Formula.distributeDisjuncts` says at once what a disjunction comes to: it works on lists of
disjuncts and never builds the formulas between. Here it is compared with the loop that does build
them, turn by turn, with `Formula.distribute`.

* **`Formula.loop_distributedForm`**: the turns of the loop, one for each disjunct beside the first
  conjunction.
* **`Formula.disjunctsReach`**: the loop ends with what `distributeDisjuncts` returns.
* **`Formula.reachesForm_iff`**: the conversion step by step ends for every formula, with its
  `conjunctiveForm`.
* **`Formula.exists_conjunctiveForm_of_isMatrix`**: the conjunctive normal form of a matrix. -/

namespace ClausalForm.Formula

variable {op : Connective} {φ ψ χ : Formula} {φs ψs χs c : List Formula} {css : Conjuncts}
  {parts : List Conjuncts} {d o : Disjunct} {ds os done : List Disjunct}
  {settle : Formula → Except NormalizationError Conjuncts}

/-! ## Disjuncts as formulas -/

/-- `d.toFormula`: the formula that a disjunct stands for. -/
def Disjunct.toFormula : Disjunct → Formula
  | simple φ => φ
  | conjunction css => ofConjuncts css

/-- `d.IsMixed`: a literal, a quantifier, or a conjunction of at least two mixed conjuncts. -/
def Disjunct.IsMixed : Disjunct → Prop
  | simple φ => φ.isLiteral = true ∨ φ.isQuantified = true
  | conjunction css => Conjuncts.IsMixed css ∧ 2 ≤ css.length

/-- `Disjunct.toFormula` of simple disjuncts gives the formulas that they are made of. -/
theorem map_toFormula_simple (φs : List Formula) :
    (φs.map Disjunct.simple).map Disjunct.toFormula = φs := by
  rw [List.map_map]
  exact List.map_id φs

/-- A part of mixed conjuncts is no connective. -/
theorem isConnective_of_part (part : φ.isLiteral = true ∨ φ.isQuantified = true)
    (op : Connective) : φ.isConnective op = false := by
  rcases part with literal | kind
  · exact isConnective_of_isLiteral literal op
  · cases φ with
    | quantified => rfl
    | _ => cases kind

/-- `css.IsPlain`: mixed conjuncts are plain. -/
theorem isPlain_of_isMixed (mixed : css.IsMixed) : css.IsPlain := fun c hc φ hφ =>
  isConnective_of_part (mixed.part c hc φ hφ)

/-- `ofConjuncts css = .connective .and (css.map (joined .or))`: several conjuncts are a
conjunction. -/
theorem ofConjuncts_of_two (two : 2 ≤ css.length) :
    ofConjuncts css = .connective .and (css.map (joined .or)) :=
  joined_of_two (by rwa [List.length_map])

/-- `d.toFormula` of a mixed disjunct is no disjunction, and a conjunction only if it is built as
one. -/
theorem Disjunct.IsMixed.isConnective (h : d.IsMixed) : d.toFormula.isConnective .or = false ∧
    d.toFormula.isConnective .and = d.isConjunction := by
  cases d with
  | simple φ => exact ⟨isConnective_of_part h .or, isConnective_of_part h .and⟩
  | conjunction css =>
    rw [toFormula, ofConjuncts_of_two h.2]
    exact ⟨rfl, rfl⟩

/-- `firstConjunction?` finds in the formulas what `takeConjunction` finds in the disjuncts. -/
theorem firstConjunction?_map (mixed : ∀ d ∈ ds, d.IsMixed) :
    firstConjunction? (ds.map Disjunct.toFormula) = (takeConjunction ds).map
      fun (css, others) => (ofConjuncts css, others.map Disjunct.toFormula) := by
  induction ds with
  | nil => rfl
  | cons d ds ih =>
    rw [List.forall_mem_cons] at mixed
    rw [List.map_cons, firstConjunction?, mixed.1.isConnective.2]
    cases d with
    | conjunction css =>
      rw [takeConjunction]
      rfl
    | simple φ =>
      rw [takeConjunction, ih mixed.2, if_neg (by simp [Disjunct.isConjunction]), Option.map_map,
        Option.map_map]
      rfl

/-! ## Turns -/

/-- `distribute φ ψ` puts `φ` in front of each member of a conjunction `ψ` of several members. -/
theorem distribute_conjunction (two : 2 ≤ χs.length) (plain : φ.isConnective .or = false)
    (some : ∀ χ ∈ χs, χ.membersOf .or ≠ []) : distribute φ (.connective .and χs) =
      .ok (.connective .and (χs.map fun χ => .connective .or (φ :: χ.membersOf .or))) := by
  have each : ∀ χ ∈ χs, combine .or [φ, χ] = .ok (.connective .or (φ :: χ.membersOf .or)) := by
    intro χ mem
    -- The disjunct is no disjunction, and so one member, with those of the conjunct behind it.
    have members : spliced .or [φ, χ] = φ :: χ.membersOf .or := by
      rw [spliced, List.flatMap_cons, List.flatMap_singleton, membersOf_of_not plain]
      rfl
    have enough : 2 ≤ (spliced .or [φ, χ]).length := by
      rw [members, List.length_cons]
      exact Nat.succ_le_succ (List.length_pos_iff.2 (some χ mem))
    rw [combine_of_two enough, members]
  have flat : ∀ θ ∈ χs.map fun χ => Formula.connective .or (φ :: χ.membersOf .or),
      θ.isConnective .and = false := by
    rw [List.forall_mem_map]
    exact fun _ _ => rfl
  have same := spliced_of_flat flat
  rw [distribute]
  show (inOrder (χs.map fun χ => combine .or [φ, χ]) >>= combine .and) = _
  rw [inOrder_map_eq_ok_map each]
  show combine .and _ = _
  rw [combine_of_two (by rwa [same, List.length_map]), same]

/-- `distributedForm done css`: the conjunction of several conjuncts `css` after the disjuncts
`done` are distributed over it, one after the other. -/
def distributedForm (done : List Disjunct) (css : Conjuncts) : Formula :=
  .connective .and
    (css.map fun c => .connective .or ((distributed done c).map Disjunct.toFormula))

/-- `distribute o.toFormula (ofConjuncts css)`: the first turn distributes a disjunct over the
conjunction itself. -/
theorem distribute_ofConjuncts (mixed : css.IsMixed) (two : 2 ≤ css.length) (ho : o.IsMixed) :
    distribute o.toFormula (ofConjuncts css) = .ok (distributedForm [o] css) := by
  have disjuncts := (membersOf_ofConjuncts (isPlain_of_isMixed mixed)).2
  have some : ∀ χ ∈ css.map (joined .or), χ.membersOf .or ≠ [] := by
    rw [List.forall_mem_map]
    intro c hc
    rw [disjuncts c hc]
    exact mixed.clause c hc
  rw [ofConjuncts_of_two two, distribute_conjunction (by rwa [List.length_map])
    ho.isConnective.1 some, List.map_map, distributedForm]
  refine congrArg (fun φs => Except.ok (Formula.connective .and φs))
    (List.map_congr_left fun c hc => ?_)
  show Formula.connective .or (o.toFormula :: (joined .or c).membersOf .or) = _
  rw [disjuncts c hc]
  rw [distributed, List.map_append, map_toFormula_simple]
  rfl

/-- `distribute o.toFormula (distributedForm done css)`: a later turn distributes a disjunct over
what came out before. -/
theorem distribute_distributedForm (mixed : css.IsMixed) (two : 2 ≤ css.length) (ho : o.IsMixed) :
    distribute o.toFormula (distributedForm done css) =
      .ok (distributedForm (done ++ [o]) css) := by
  have some : ∀ χ ∈ css.map fun c =>
      Formula.connective .or ((distributed done c).map Disjunct.toFormula),
      χ.membersOf .or ≠ [] := by
    rw [List.forall_mem_map]
    intro c hc
    have := mixed.clause c hc
    simp [membersOf, distributed, this]
  rw [distributedForm, distribute_conjunction (by rwa [List.length_map]) ho.isConnective.1 some,
    List.map_map, distributedForm]
  refine congrArg (fun φs => Except.ok (Formula.connective .and φs))
    (List.map_congr_left fun c _ => ?_)
  simp [membersOf, distributed]

/-- `Loop distributionTurn (os.length + 1) φs`: the loop ends after as many turns as there are
disjuncts beside the conjunction, and all of them are distributed then. -/
theorem loop_distributedForm (mixed : css.IsMixed) (two : 2 ≤ css.length)
    (each : ∀ d ∈ o :: os, d.IsMixed)
    (found : firstConjunction? φs = some (ψ, (o :: os).map Disjunct.toFormula))
    (turn : distribute o.toFormula ψ = .ok (distributedForm (done ++ [o]) css)) :
    Loop distributionTurn (os.length + 1) φs
      (.remaining (distributedForm (done ++ o :: os) css)) := by
  -- By induction on the disjuncts that are left: each turn moves one of them to those that are
  -- done.
  induction os generalizing φs ψ o done with
  | nil =>
    refine .last ?_
    rw [List.map_singleton] at found
    simp only [distributionTurn, found, turn]
  | cons p os ih =>
    rw [List.map_cons, List.map_cons] at found
    rw [List.forall_mem_cons] at each
    have next : distributionTurn φs =
        .inl (distributedForm (done ++ [o]) css :: (p :: os).map Disjunct.toFormula) := by
      simp only [distributionTurn, found, turn]
      rfl
    have rest : Loop distributionTurn (os.length + 1)
        (distributedForm (done ++ [o]) css :: (p :: os).map Disjunct.toFormula)
        (.remaining (distributedForm (done ++ [o] ++ p :: os) css)) :=
      ih each.2 rfl (distribute_distributedForm mixed two (each.2 p List.mem_cons_self))
    rw [List.append_assoc] at rest
    exact .again next rest

/-! ## Forms of forms -/

/-- `unlessQuantified parts a`: the value `a`, unless one of the `parts` is a quantifier; the first
such one is refused. -/
def unlessQuantified {α : Type} : List Formula → α → Except NormalizationError α :=
  acceptAll isQuantified fun φ => .malformed (.quantifierInMatrix φ)

/-- `convertDisjuncts ds`: the conjuncts of the disjuncts `ds` distributed over each other, unless
one of their parts is a quantifier. -/
def convertDisjuncts (ds : List Disjunct) : Except NormalizationError Conjuncts := do
  refuseQuantifiers ds
  distributeDisjuncts ds

/-- `refuseQuantifiers ds` looks at the parts of the disjuncts. -/
theorem refuseQuantifiers_eq (ds : List Disjunct) :
    refuseQuantifiers ds = unlessQuantified (ds.flatMap Disjunct.parts) () := by
  unfold refuseQuantifiers unlessQuantified acceptAll
  split <;> simp [*]

section Selves

variable {α : Type} {as : List α} {f : α → Formula} {parts : α → List Formula}

/-- `inOrder` goes through the parts of all members. -/
theorem inOrder_unlessQuantified (as : List α) (f : α → Formula) (parts : α → List Formula) :
    inOrder (as.map fun a => unlessQuantified (parts a) (f a)) =
      unlessQuantified (as.flatMap parts) (as.map f) :=
  inOrder_acceptAll parts f as

/-- `ReachesForm` for a conjunction: members that come to themselves come to what they build, unless
one of them is refused. -/
theorem reachesForm_and_of_selves
    (each : ∀ a ∈ as, (f a).MemberReaches (unlessQuantified (parts a) (f a)))
    (built : combine .and (as.map f) = .ok χ) :
    (Formula.connective .and (as.map f)).ReachesForm (unlessQuantified (as.flatMap parts) χ) := by
  have form := reachesForm_and each
  have joined : (unlessQuantified (as.flatMap parts) (as.map f) >>= combine .and) =
      unlessQuantified (as.flatMap parts) χ := by
    unfold unlessQuantified acceptAll
    cases (as.flatMap parts).find? isQuantified with
    | some φ => rfl
    | none => exact built
  rwa [inOrder_unlessQuantified, joined] at form

/-- `ReachesForm` for a disjunction: so do its members. -/
theorem reachesForm_or_of_selves
    (each : ∀ a ∈ as, (f a).MemberReaches (unlessQuantified (parts a) (f a)))
    (distributing : Distributing (combine .or (as.map f)) (.result (.ok χ))) :
    (Formula.connective .or (as.map f)).ReachesForm (unlessQuantified (as.flatMap parts) χ) := by
  refine reachesForm_or each ?_
  rw [inOrder_unlessQuantified]
  unfold unlessQuantified acceptAll
  cases (as.flatMap parts).find? isQuantified with
  | some φ => exact .unbuilt _
  | none => exact distributing

end Selves

/-- `φ.MemberReaches (unlessQuantified [φ] φ)`: a part comes to itself, or is refused. -/
theorem memberReaches_part (part : φ.isLiteral = true ∨ φ.isQuantified = true) :
    φ.MemberReaches (unlessQuantified [φ] φ) := by
  refine ⟨fun kind => by simp [unlessQuantified, acceptAll, kind], fun plain => ?_⟩
  have accepted : unlessQuantified [φ] φ = .ok φ := by simp [unlessQuantified, acceptAll, plain]
  rw [accepted]
  have literal := part.resolve_right (by simp [plain])
  cases φ with
  | atom a => exact .atom a
  | not φ => exact .literal literal
  | _ => cases literal

/-- `firstConjunction? φs = none`, if no formula is a conjunction. -/
theorem firstConjunction?_eq_none (plain : ∀ φ ∈ φs, φ.isConnective .and = false) :
    firstConjunction? φs = none := by
  induction φs with
  | nil => rfl
  | cons φ φs ih =>
    rw [List.forall_mem_cons] at plain
    rw [firstConjunction?, plain.1, ih plain.2]
    rfl

/-- `Distributing (combine .or ψs)`: parts are disjoined at once, or after one turn of the loop,
which finds no conjunction. -/
theorem distributing_parts (some : c ≠ []) (same : spliced .or ψs = c)
    (part : ∀ φ ∈ c, φ.isLiteral = true ∨ φ.isQuantified = true) :
    Distributing (combine .or ψs) (.result (.ok (joined .or c))) := by
  have plain : ∀ op, ∀ φ ∈ c, φ.isConnective op = false := fun op φ mem =>
    isConnective_of_part (part φ mem) op
  have built : combine .or ψs = .ok (joined .or c) := by
    rw [combine_eq_joined (same ▸ some), same]
  have again : combine .or c = .ok (joined .or c) := by
    rw [combine_eq_joined, spliced_of_flat (plain .or)]
    rwa [spliced_of_flat (plain .or)]
  have turn : distributionTurn c = .inr (.result (.ok (joined .or c))) := by
    rw [distributionTurn, firstConjunction?_eq_none (plain .and), again]
  rw [built]
  by_cases single : ∃ φ, c = [φ]
  · obtain ⟨φ, rfl⟩ := single
    exact .single (plain .or φ List.mem_cons_self)
  · rw [not_exists] at single
    rw [joined_of_two (two_le_length some single)] at turn ⊢
    exact .loop (.last turn)

/-- `(joined .or c).MemberReaches`: a clause of parts comes to itself, or is refused. -/
theorem memberReaches_joined_or (some : c ≠ [])
    (part : ∀ φ ∈ c, φ.isLiteral = true ∨ φ.isQuantified = true) :
    (joined .or c).MemberReaches (unlessQuantified c (joined .or c)) := by
  by_cases single : ∃ φ, c = [φ]
  · obtain ⟨φ, rfl⟩ := single
    exact memberReaches_part (part φ List.mem_cons_self)
  · rw [not_exists] at single
    rw [joined_of_two (two_le_length some single)]
    refine .of_plain rfl ?_
    have form : (Formula.connective .or (c.map id)).ReachesForm
        (unlessQuantified (c.flatMap fun φ => [φ]) (joined .or c)) :=
      reachesForm_or_of_selves (fun φ mem => memberReaches_part (part φ mem))
        (distributing_parts some (by rw [List.map_id, spliced_of_flat fun φ mem =>
          isConnective_of_part (part φ mem) .or]) part)
    rwa [List.map_id, List.flatMap_singleton', joined_of_two (two_le_length some single)] at form

/-- `(ofConjuncts css).MemberReaches`: the form of mixed conjuncts comes to itself, or one of its
parts is refused. -/
theorem memberReaches_ofConjuncts (mixed : Conjuncts.IsMixed css) (two : 2 ≤ css.length) :
    (ofConjuncts css).MemberReaches (unlessQuantified css.flatten (ofConjuncts css)) := by
  have flat := spliced_of_flat (isConnective_joined_or (isPlain_of_isMixed mixed))
  have built : combine .and (css.map (joined .or)) = .ok (ofConjuncts css) := by
    rw [ofConjuncts_of_two two, combine_of_two (by rwa [flat, List.length_map]), flat]
  have form := reachesForm_and_of_selves
    (fun c hc => memberReaches_joined_or (mixed.clause c hc) (mixed.part c hc)) built
  rw [List.flatMap_id'] at form
  rw [ofConjuncts_of_two two] at form ⊢
  exact .of_plain rfl form

/-- `d.toFormula.MemberReaches`: a mixed disjunct comes to itself, or one of its parts is
refused. -/
theorem Disjunct.IsMixed.memberReaches (h : d.IsMixed) :
    d.toFormula.MemberReaches (unlessQuantified d.parts d.toFormula) := by
  cases d with
  | simple φ => exact memberReaches_part h
  | conjunction css => exact memberReaches_ofConjuncts h.1 h.2

/-! ## The loop and the distribution of disjuncts -/

/-- `DisjunctsReach φs r`: the converted disjuncts `φs` are done with, and the result is `r`. -/
inductive DisjunctsReach (φs : List Formula) (r : Except NormalizationError Formula) : Prop
  | result (distributing : Distributing (combine .or φs) (.result r)) : DisjunctsReach φs r
  | remaining {χ : Formula} (distributing : Distributing (combine .or φs) (.remaining χ))
      (form : χ.ReachesForm r) : DisjunctsReach φs r

/-- `DisjunctsReach ψs r`: a disjunction reaches what its converted members reach. -/
theorem DisjunctsReach.reachesForm {α : Type} {as : List α} {f : α → Formula}
    {g : α → Except NormalizationError Formula} {r : Except NormalizationError Formula}
    (h : DisjunctsReach ψs r) (each : ∀ a ∈ as, (f a).MemberReaches (g a))
    (converted : inOrder (as.map g) = .ok ψs) :
    (Formula.connective .or (as.map f)).ReachesForm r := by
  cases h with
  | result distributing => exact reachesForm_or each (by rw [converted]; exact distributing)
  | remaining distributing form =>
    exact reachesForm_or_remaining each (by rw [converted]; exact distributing) form

/-- `d ∈ distributed os c`: the disjuncts of one conjunct of a distributed conjunction are mixed. -/
theorem isMixed_distributed (mixed : Conjuncts.IsMixed css) (hc : c ∈ css)
    (rest : ∀ d ∈ os, d.IsMixed) : ∀ d ∈ distributed os c, d.IsMixed := by
  intro d mem
  rcases List.mem_append.1 mem with mem | mem
  · exact rest d (List.mem_reverse.1 mem)
  · obtain ⟨φ, hφ, rfl⟩ := List.mem_map.1 mem
    exact mixed.part c hc φ hφ

/-- The results for the conjuncts `css` of a distributed conjunction are some conjuncts, and mixed
if each of them is. -/
theorem isMixed_of_inOrder (some : css ≠ [])
    (results : inOrder (css.map fun c => convertDisjuncts (distributed os c)) = .ok parts)
    (each : ∀ c ∈ css, ∀ cs, distributeDisjuncts (distributed os c) = .ok cs →
      Conjuncts.IsMixed cs) : parts ≠ [] ∧ ∀ cs ∈ parts, Conjuncts.IsMixed cs := by
  have all := inOrder_map_eq_ok.1 results
  refine ⟨ne_nil_of_forall₂ all some, fun cs mem => ?_⟩
  obtain ⟨c, hc, result⟩ := forall₂_right all mem
  obtain ⟨_, _, later⟩ := bind_eq_ok_iff.1 result
  exact each c hc cs later

/-- `distributeDisjuncts ds = .ok css`: distributing mixed disjuncts gives mixed conjuncts. -/
theorem isMixed_of_distributeDisjuncts (some : ds ≠ []) (mixed : ∀ d ∈ ds, d.IsMixed)
    (found : distributeDisjuncts ds = .ok css) : Conjuncts.IsMixed css := by
  -- By the recursion: no conjunction is left, or one alone, or one is distributed over the others.
  fun_induction distributeDisjuncts ds generalizing css with
  | case1 ds none =>
    obtain ⟨φs, rfl⟩ := takeConjunction_eq_none none
    rw [flatMap_parts_simple] at found
    cases found
    refine ⟨List.cons_ne_nil _ _, ?_, ?_⟩
    · rw [List.forall_mem_singleton]
      simpa using some
    · rw [List.forall_mem_singleton]
      exact fun φ mem => mixed (.simple φ) (List.mem_map_of_mem mem)
  | case2 ds css taken =>
    cases found
    exact (mixed _ ((takeConjunction_perm taken).mem_iff.2 List.mem_cons_self)).1
  | case3 ds first o os taken ih =>
    have perm := takeConjunction_perm taken
    have all : ∀ d ∈ Disjunct.conjunction first :: o :: os, d.IsMixed := fun d mem =>
      mixed d (perm.mem_iff.2 mem)
    obtain ⟨conjunction, rest⟩ := List.forall_mem_cons.1 all
    obtain ⟨parts, results, returned⟩ := bind_eq_ok_iff.1 found
    cases returned
    have spec := isMixed_of_inOrder conjunction.1.some results fun c hc cs later =>
      ih c (by simp [distributed]) (isMixed_distributed conjunction.1 hc rest) later
    exact isMixed_flatten spec.1 spec.2

/-- `combine .and (parts.map ofConjuncts)`: formulas of mixed conjuncts are conjoined to the formula
of all of them. -/
theorem combine_map_ofConjuncts (mixed : ∀ cs ∈ parts, Conjuncts.IsMixed cs) :
    combine .and (parts.map ofConjuncts) = ofConjuncts <$> nonemptyMembers .and parts.flatten := by
  have members : spliced .and (parts.map ofConjuncts) = parts.flatten.map (joined .or) := by
    rw [spliced, List.flatMap_map, List.map_flatten, ← List.flatMap_def]
    exact List.flatMap_congr fun cs mem =>
      (membersOf_ofConjuncts (isPlain_of_isMixed (mixed cs mem))).1
  rw [combine_eq, members]
  cases parts.flatten <;> rfl

/-- `ofConjuncts <$> convertDisjuncts ds`: a disjunction of mixed disjuncts is converted as they
are. -/
theorem reachesForm_of_isMixed (mixed : ∀ d ∈ ds, d.IsMixed)
    (reach : DisjunctsReach (ds.map Disjunct.toFormula) (ofConjuncts <$> distributeDisjuncts ds)) :
    (Formula.connective .or (ds.map Disjunct.toFormula)).ReachesForm
      (ofConjuncts <$> convertDisjuncts ds) := by
  have each : ∀ d ∈ ds, d.toFormula.MemberReaches (unlessQuantified d.parts d.toFormula) :=
    fun d mem => (mixed d mem).memberReaches
  have results : inOrder (ds.map fun d => unlessQuantified d.parts d.toFormula) =
      (fun _ => ds.map Disjunct.toFormula) <$> refuseQuantifiers ds := by
    rw [refuseQuantifiers_eq, inOrder_unlessQuantified, unlessQuantified, unlessQuantified,
      map_acceptAll]
  unfold convertDisjuncts
  cases passed : refuseQuantifiers ds with
  | error e =>
    rw [passed] at results
    exact reachesForm_or each (by rw [results]; exact .unbuilt e)
  | ok _ =>
    rw [passed] at results
    exact reach.reachesForm each results

/-- `(distributedForm os css).ReachesForm`: what remains after the turns is a conjunction, and its
members are distributed further. -/
theorem reachesForm_distributedForm (mixed : css.IsMixed) (inhabited : os ≠ [])
    (rest : ∀ d ∈ os, d.IsMixed)
    (each : ∀ c ∈ css, DisjunctsReach ((distributed os c).map Disjunct.toFormula)
      (ofConjuncts <$> distributeDisjuncts (distributed os c))) :
    (distributedForm os css).ReachesForm (ofConjuncts <$> List.flatten <$>
      inOrder (css.map fun c => convertDisjuncts (distributed os c))) := by
  have members : ∀ c ∈ css, (Formula.connective .or
      ((distributed os c).map Disjunct.toFormula)).MemberReaches
        (ofConjuncts <$> convertDisjuncts (distributed os c)) := fun c hc =>
    .of_plain rfl (reachesForm_of_isMixed (isMixed_distributed mixed hc rest) (each c hc))
  have form := reachesForm_and members
  rw [inOrder_map_map] at form
  cases results : inOrder (css.map fun c => convertDisjuncts (distributed os c)) with
  | error e =>
    rw [results] at form
    exact form
  | ok parts =>
    obtain ⟨some, mixedParts⟩ := isMixed_of_inOrder mixed.some results fun c hc cs =>
      isMixed_of_distributeDisjuncts (by simp [distributed, inhabited])
        (isMixed_distributed mixed hc rest)
    have conjoined : combine .and (parts.map ofConjuncts) = .ok (ofConjuncts parts.flatten) := by
      rw [combine_map_ofConjuncts mixedParts,
        nonemptyMembers_of_ne_nil .and (isMixed_flatten some mixedParts).some]
      rfl
    rw [results] at form
    change ReachesForm _ (combine .and (parts.map ofConjuncts)) at form
    rw [conjoined] at form
    exact form

/-- The loop with `distribute` ends with what `distributeDisjuncts` says at once. -/
theorem disjunctsReach (some : ds ≠ []) (mixed : ∀ d ∈ ds, d.IsMixed)
    (same : spliced .or ψs = ds.map Disjunct.toFormula) :
    DisjunctsReach ψs (ofConjuncts <$> distributeDisjuncts ds) := by
  fun_induction distributeDisjuncts ds generalizing ψs with
  | case1 ds none =>
    obtain ⟨c, rfl⟩ := takeConjunction_eq_none none
    rw [map_toFormula_simple] at same
    rw [flatMap_parts_simple]
    exact .result (distributing_parts (by simpa using some) same fun φ mem =>
      mixed (.simple φ) (List.mem_map_of_mem mem))
  | case2 ds css taken =>
    obtain rfl := List.perm_singleton.1 (takeConjunction_perm taken)
    have whole := mixed _ List.mem_cons_self
    have built : combine .or ψs = .ok (ofConjuncts css) := by
      rw [combine_eq_joined, same]
      · rfl
      · simp [same]
    refine .result ?_
    rw [built]
    exact .single whole.isConnective.1
  | case3 ds css o os taken ih =>
    have perm := takeConjunction_perm taken
    have all : ∀ d ∈ Disjunct.conjunction css :: o :: os, d.IsMixed := fun d mem =>
      mixed d (perm.mem_iff.2 mem)
    obtain ⟨conjunction, rest⟩ := List.forall_mem_cons.1 all
    have built : combine .or ψs = .ok (.connective .or (ds.map Disjunct.toFormula)) := by
      rw [combine_of_two, same]
      rw [same, List.length_map, perm.length_eq]
      simp
    have turns : Loop distributionTurn (os.length + 1) (ds.map Disjunct.toFormula)
        (.remaining (distributedForm ([] ++ o :: os) css)) :=
      loop_distributedForm conjunction.1 conjunction.2 rest
        (by rw [firstConjunction?_map mixed, taken]; rfl)
        (distribute_ofConjuncts conjunction.1 conjunction.2 (rest o List.mem_cons_self))
    refine .remaining (by rw [built]; exact .loop turns) ?_
    refine reachesForm_distributedForm conjunction.1 (List.cons_ne_nil o os) rest fun c hc => ?_
    have parts := isMixed_distributed conjunction.1 hc rest
    refine ih c (by simp [distributed]) parts ?_
    exact spliced_of_flat (List.forall_mem_map.2 fun d mem => (parts d mem).isConnective.1)

/-! ## All formulas -/

/-- `Reached φ result`: converting `φ` step by step ends with the form of the conjuncts in `result`,
and these are mixed. -/
structure Reached (φ : Formula) (result : Except NormalizationError Conjuncts) : Prop where
  form : φ.ReachesForm (ofConjuncts <$> result)
  mixed : ∀ css, result = .ok css → css.IsMixed

/-- `Reached φ (.error e)`: a formula that is refused is reached, since there are no conjuncts that
could fail to be mixed. -/
theorem ReachesForm.reached_error {e : NormalizationError} (h : φ.ReachesForm (.error e)) :
    Reached φ (.error e) := by
  refine ⟨h, fun css same => ?_⟩
  cases same

/-- `Reached φ (.ok [[φ]])`: a literal is reached as its own conjunct. -/
theorem reached_literal (literal : φ.isLiteral = true) : Reached φ (.ok [[φ]]) := by
  refine ⟨?_, fun css same => ?_⟩
  · cases φ with
    | atom a => exact .atom a
    | not φ => exact .literal literal
    | _ => cases literal
  · cases same
    exact (hasParts_literal literal).mixed

/-- `(ofConjuncts css).membersOf .or`: what mixed conjuncts contribute to a disjunction are the
formulas of their disjuncts. -/
theorem membersOf_or_ofConjuncts (mixed : Conjuncts.IsMixed css) :
    (ofConjuncts css).membersOf .or = (disjunctsOf css).map Disjunct.toFormula := by
  by_cases single : ∃ c, css = [c]
  · obtain ⟨c, rfl⟩ := single
    rw [disjunctsOf, map_toFormula_simple]
    exact (membersOf_ofConjuncts (isPlain_of_isMixed mixed)).2 c List.mem_cons_self
  · rw [not_exists] at single
    have two := two_le_length mixed.some single
    rw [disjunctsOf, List.map_singleton, Disjunct.toFormula, ofConjuncts_of_two two]
    · rfl
    · exact single

/-- `d ∈ disjunctsOf css`: what mixed conjuncts contribute to a disjunction is mixed. -/
theorem isMixed_of_mem_disjunctsOf (mixed : Conjuncts.IsMixed css) (mem : d ∈ disjunctsOf css) :
    d.IsMixed := by
  cases d with
  | simple φ =>
    obtain ⟨c, rfl, hφ⟩ := simple_mem_disjunctsOf.1 mem
    exact mixed.part c List.mem_cons_self φ hφ
  | conjunction cs =>
    obtain ⟨rfl, several⟩ := conjunction_mem_disjunctsOf.1 mem
    exact ⟨mixed, two_le_length mixed.some several⟩

/-- `spliced .or (parts.map ofConjuncts)`: the formulas of mixed conjuncts are spliced into those of
all of their disjuncts. -/
theorem spliced_map_ofConjuncts (mixed : ∀ cs ∈ parts, Conjuncts.IsMixed cs) :
    spliced .or (parts.map ofConjuncts) =
      (parts.flatMap disjunctsOf).map Disjunct.toFormula := by
  rw [spliced, List.flatMap_map, List.map_flatMap]
  exact List.flatMap_congr fun cs mem => membersOf_or_ofConjuncts (mixed cs mem)

/-- `d ∈ parts.flatMap disjunctsOf`: the disjuncts of mixed conjuncts are mixed. -/
theorem isMixed_of_mem_flatMap (mixed : ∀ cs ∈ parts, Conjuncts.IsMixed cs) :
    ∀ d ∈ parts.flatMap disjunctsOf, d.IsMixed := by
  intro d mem
  obtain ⟨cs, hcs, hd⟩ := List.mem_flatMap.1 mem
  exact isMixed_of_mem_disjunctsOf (mixed cs hcs) hd

section Members

variable (each : ∀ φ ∈ φs, Reached φ (φ.conjunctsWith settle))

include each

/-- `ofConjuncts <$> memberConjuncts settle φ`: members come to the formulas of their conjuncts. -/
theorem memberReaches_memberConjuncts :
    ∀ φ ∈ φs, (id φ).MemberReaches (ofConjuncts <$> memberConjuncts settle φ) := by
  intro φ mem
  show φ.MemberReaches _
  unfold memberConjuncts
  by_cases kind : φ.isQuantified = true
  · rw [if_pos kind]
    exact ⟨fun _ => rfl, fun plain => by simp [kind] at plain⟩
  · rw [if_neg kind]
    exact .of_plain (eq_false_of_ne_true kind) (each φ mem).form

/-- The conjuncts of the members are mixed. -/
theorem isMixed_of_memberConjuncts
    (results : inOrder (φs.map (memberConjuncts settle)) = .ok parts) :
    ∀ cs ∈ parts, Conjuncts.IsMixed cs := by
  intro cs mem
  obtain ⟨φ, hφ, result⟩ := forall₂_right (inOrder_map_eq_ok.1 results) mem
  exact (each φ hφ).mixed cs (guarded_eq_ok_iff.1 result).2

/-- `Reached (connective .and φs)`: a conjunction is reached as the conjuncts of its members. -/
theorem reached_and :
    Reached (.connective .and φs) ((Formula.connective .and φs).conjunctsWith settle) := by
  have form := reachesForm_and (memberReaches_memberConjuncts each)
  rw [List.map_id, inOrder_map_map] at form
  rw [conjunctsWith_connective]
  cases results : inOrder (φs.map (memberConjuncts settle)) with
  | error e =>
    rw [results] at form
    exact form.reached_error
  | ok parts =>
    have mixed := isMixed_of_memberConjuncts each results
    rw [results] at form
    change ReachesForm _ (combine .and (parts.map ofConjuncts)) at form
    rw [combine_map_ofConjuncts mixed] at form
    refine ⟨form, fun css found => ?_⟩
    change nonemptyMembers .and parts.flatten = .ok css at found
    -- Without parts there would be no members to return.
    have inhabited : parts ≠ [] := by
      rintro rfl
      cases found
    have together := isMixed_flatten inhabited mixed
    rw [nonemptyMembers_of_ne_nil .and together.some] at found
    exact Except.ok.inj found ▸ together

/-- `Reached (connective .or φs)`: a disjunction is reached as the disjuncts of its members,
distributed over each other. -/
theorem reached_or :
    Reached (.connective .or φs) ((Formula.connective .or φs).conjunctsWith settle) := by
  have members := memberReaches_memberConjuncts each
  have converted := inOrder_map_map ofConjuncts (memberConjuncts settle) φs
  rw [conjunctsWith_connective]
  cases results : inOrder (φs.map (memberConjuncts settle)) with
  | error e =>
    rw [results] at converted
    have form := reachesForm_or members (by rw [converted]; exact .unbuilt e)
    rw [List.map_id] at form
    exact form.reached_error
  | ok parts =>
    have mixed := isMixed_of_memberConjuncts each results
    have same := spliced_map_ofConjuncts mixed
    have each := isMixed_of_mem_flatMap mixed
    rw [results] at converted
    show Reached _ (nonemptyMembers .or (parts.flatMap disjunctsOf) >>= distributeDisjuncts)
    -- Without disjuncts both ways refuse to build the disjunction. Otherwise the loop takes over.
    by_cases none : parts.flatMap disjunctsOf = []
    · have unbuilt : Distributing (combine .or (parts.map ofConjuncts))
          (.result (.error (.malformed (.noMembers .or)))) := by
        rw [combine_eq, same, none]
        exact .unbuilt _
      have form := reachesForm_or members (by rw [converted]; exact unbuilt)
      rw [List.map_id] at form
      rw [none]
      exact form.reached_error
    · have form := (disjunctsReach none each same).reachesForm members converted
      rw [List.map_id] at form
      rw [nonemptyMembers_of_ne_nil .or none]
      exact ⟨form, fun css found => isMixed_of_distributeDisjuncts none each found⟩

end Members

/-- Every formula is reached as its conjuncts, if it is in negation normal form or `settle` reaches
the negations of compound formulas. -/
theorem reached_conjunctsWith (settles : φ.isNegationNormal = true ∨
    ∀ χ : Formula, χ.isAtom = false → Reached (.not χ) (settle (.not χ))) :
    Reached φ (φ.conjunctsWith settle) := by
  -- A negation is settled by the caller. In negation normal form it is a literal, and nothing is
  -- left to settle.
  induction φ using induction with
  | atom a =>
    rw [conjunctsWith]
    exact reached_literal rfl
  | not φ _ =>
    rw [conjunctsWith]
    by_cases atomic : φ.isAtom = true
    · rw [if_pos atomic]
      exact reached_literal atomic
    · rw [if_neg atomic]
      refine settles.resolve_left (fun normal => atomic ?_) φ (eq_false_of_ne_true atomic)
      rwa [isNegationNormal] at normal
  | connective op φs ih =>
    have each : ∀ φ ∈ φs, Reached φ (φ.conjunctsWith settle) := by
      intro φ mem
      refine ih φ mem (settles.imp_left fun normal => ?_)
      rw [isNegationNormal, List.all_map, List.all_eq_true] at normal
      exact normal φ mem
    cases op with
    | and => exact reached_and each
    | or => exact reached_or each
  | quantified q xs φ ih =>
    have body := ih (settles.imp_left fun normal => by rwa [isNegationNormal] at normal)
    rw [conjunctsWith]
    cases found : φ.conjunctsWith settle with
    | error e =>
      rw [found] at body
      exact (ReachesForm.quantified body.form).reached_error
    | ok css =>
      rw [found] at body
      refine ⟨.quantified body.form, fun css same => ?_⟩
      cases same
      exact ⟨List.cons_ne_nil _ _, by simp, by simp [isQuantified]⟩

/-- `Reached φ φ.conjuncts`: every formula is reached as its conjuncts. -/
theorem reached_conjuncts (φ : Formula) : Reached φ φ.conjuncts := by
  refine reached_conjunctsWith (.inr fun χ compound => ?_)
  cases pushing : pushNegations (.not χ) with
  | error e => exact (ReachesForm.unpushed compound pushing).reached_error
  | ok ψ =>
    -- What a negation is pushed down to is in negation normal form.
    have run := pushNegations_eq_pushed (.not χ)
    rw [pushing] at run
    obtain ⟨pushed, reduced⟩ := pushed_eq_ok (not_hasEmptyConnective_of_pushed run.symm) true
    rw [← run] at pushed
    rw [← Except.ok.inj pushed] at reduced
    have inner : Reached ψ (ψ.conjunctsWith fun χ => .ok [[χ]]) :=
      reached_conjunctsWith (.inl (isNegationNormal_of_isReduced reduced))
    exact ⟨.negation compound pushing inner.form, inner.mixed⟩

/-- `φ.ReachesForm r ↔ r = φ.conjunctiveForm`: converting a formula step by step always ends, and it
ends with the conjunctive normal form. -/
theorem reachesForm_iff {r : Except NormalizationError Formula} :
    φ.ReachesForm r ↔ r = φ.conjunctiveForm := by
  have form : φ.ReachesForm φ.conjunctiveForm := (reached_conjuncts φ).form
  constructor
  · intro h
    exact h.unique form
  · rintro rfl
    exact form

/-! ## Matrices -/

/-- **The conjunctive normal form of a matrix.** Every matrix `φ` has a form `r`, a conjunction of
clauses. It is true for the same atoms, and it is its own form. The conversion step by step, with
its loop over `distribute`, ends with `r` as well. -/
theorem exists_conjunctiveForm_of_isMatrix (φ : Formula) (isMatrix : φ.IsMatrix) :
    ∃ r, φ.conjunctiveForm = .ok r ∧ r.IsConjunctiveForm ∧
      (∀ w, r.TruthAt w ↔ φ.TruthAt w) ∧ r.conjunctiveForm = .ok r ∧
      ∀ r', φ.ReachesForm r' ↔ r' = .ok r := by
  have none := isMatrix.quantifierCount_eq_zero
  obtain ⟨css, found, proper, rewrites⟩ := exists_conjunctiveForm isMatrix.populated none
  refine ⟨ofConjuncts css, found, isConjunctiveForm_ofConjuncts proper, fun w => ?_,
    map_eq_ok_iff.2 ⟨css, conjuncts_ofConjuncts proper, rfl⟩,
    fun r' => by rw [reachesForm_iff, found]⟩
  -- Truth in the structure of terms is truth for the atoms, before and after.
  calc (ofConjuncts css).TruthAt w
    _ ↔ (ofConjuncts css).Holds (.ofTerms w) .var :=
      (holds_ofTerms w (quantifierCount_ofConjuncts proper)).symm
    _ ↔ φ.Holds (.ofTerms w) .var := rewrites.holds _ _
    _ ↔ φ.TruthAt w := holds_ofTerms w none

/-- `nestedMatrix`: the matrix `((A(x) | ~(B(y) & ~~C())) | (D(f(x)) & (E(y))))`, with a disjunction
in a disjunction and a conjunction of one member. -/
def nestedMatrix : Formula :=
  .connective .or
    [.connective .or [.atom ⟨"A", [.var "x"]⟩, .not (.connective .and
      [.atom ⟨"B", [.var "y"]⟩, .not (.not (.atom ⟨"C", []⟩))])],
      .connective .and [.atom ⟨"D", [.app "f" [.var "x"]]⟩,
        .connective .and [.atom ⟨"E", [.var "y"]⟩]]]

/-- `nestedMatrix.IsMatrix`: the nested matrix is one. -/
theorem isMatrix_nestedMatrix : nestedMatrix.IsMatrix := by
  have negation : IsMatrix (.not (.connective .and
      [.atom ⟨"B", [.var "y"]⟩, .not (.not (.atom ⟨"C", []⟩))])) :=
    .not (.connective (List.cons_ne_nil _ _)
      (List.forall_mem_cons.2 ⟨.atom _, List.forall_mem_singleton.2 (.not (.not (.atom _)))⟩))
  have single : IsMatrix (.connective .and [.atom ⟨"E", [.var "y"]⟩]) :=
    .connective (List.cons_ne_nil _ _) (List.forall_mem_singleton.2 (.atom _))
  have left : IsMatrix (.connective .or [.atom ⟨"A", [.var "x"]⟩, _]) :=
    .connective (List.cons_ne_nil _ _)
      (List.forall_mem_cons.2 ⟨.atom _, List.forall_mem_singleton.2 negation⟩)
  have right : IsMatrix (.connective .and [.atom ⟨"D", [.app "f" [.var "x"]]⟩, _]) :=
    .connective (List.cons_ne_nil _ _)
      (List.forall_mem_cons.2 ⟨.atom _, List.forall_mem_singleton.2 single⟩)
  exact .connective (List.cons_ne_nil _ _)
    (List.forall_mem_cons.2 ⟨left, List.forall_mem_singleton.2 right⟩)

/-- `nestedMatrix` has a conjunctive normal form, and the conversion step by step ends with it. -/
theorem exists_conjunctiveForm_nestedMatrix :
    nestedMatrix.IsMatrix ∧ ∃ r, nestedMatrix.conjunctiveForm = .ok r ∧ r.IsConjunctiveForm ∧
      (∀ w, r.TruthAt w ↔ nestedMatrix.TruthAt w) ∧ r.conjunctiveForm = .ok r ∧
      ∀ r', nestedMatrix.ReachesForm r' ↔ r' = .ok r :=
  ⟨isMatrix_nestedMatrix, exists_conjunctiveForm_of_isMatrix _ isMatrix_nestedMatrix⟩

end ClausalForm.Formula
