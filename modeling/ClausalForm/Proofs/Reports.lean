import ClausalForm.Proofs.ValidNormalForms
import ClausalForm.Report

/-! # Reports read back

A report is written as JSON and read from it. Reading asks for the arguments of each literal, but
writing leaves out an empty list of them.

* **`Json.Plain`**: values that can be held in memory, with a bound on their depth.
* **`Json.fullRecord?_ofFields`**, **`Json.list?_map`**: the parts that reports are made of.
* **`Report.ofJson?_toJson`**: a report is read back exactly if every literal has arguments.
* **`Statement.hasArguments_ofResult_iff`**: when the report about a normalization has all
  arguments.
* **`Statement.ofJson?_report_iff`**: when the report about a normalization is read back. -/

namespace ClausalForm

open Json (ofFields ofString)

namespace Json

/-! ## Values that can be held -/

/-- A value whose strings are texts and whose numbers are finite, nested at most `n` deep. -/
structure Plain (n : Nat) (value : Json) : Prop where
  parts : isPlain.plainParts value = true
  depth : value.depth ≤ n

variable {n k : Nat} {value : Json}

/-- `Plain n value` gives `Plain k value` for `n ≤ k`. -/
theorem Plain.mono (h : Plain n value) (le : n ≤ k) : Plain k value :=
  ⟨h.parts, Nat.le_trans h.depth le⟩

/-- `Plain n value` with `n ≤ nestingLimit` can be held. -/
theorem Plain.isPlain (h : Plain n value) (le : n ≤ nestingLimit) : value.isPlain = true := by
  simp only [Json.isPlain, h.parts, Bool.true_and, decide_eq_true_eq]
  exact Nat.le_trans h.depth le

/-- `Plain 0 (ofString s)`: a text is not nested. -/
theorem plain_ofString (s : String) : Plain 0 (ofString s) :=
  ⟨by simp [ofString, isPlain.plainParts], by simp [ofString, Json.depth]⟩

/-- `Plain 0 (.bool b)`. -/
theorem plain_bool (b : Bool) : Plain 0 (.bool b) :=
  ⟨by simp [isPlain.plainParts], by simp [Json.depth]⟩

/-- `ns.foldl max start ≤ n` for numbers of at most `n`. -/
theorem foldl_max_le {ns : List Nat} {start : Nat} (first : start ≤ n) (rest : ∀ k ∈ ns, k ≤ n) :
    ns.foldl max start ≤ n := by
  induction ns generalizing start with
  | nil => exact first
  | cons k ks ih =>
    rw [List.forall_mem_cons] at rest
    exact ih (Nat.max_le.2 ⟨first, rest.1⟩) rest.2

/-- `Plain (n + 1) (.array items)`: one deeper than its items. -/
theorem plain_array {items : List Json} (each : ∀ value ∈ items, Plain n value) :
    Plain (n + 1) (.array items) := by
  refine ⟨?_, ?_⟩
  · rw [isPlain.plainParts, List.all_map, List.all_eq_true]
    exact fun value mem => (each value mem).parts
  · rw [Json.depth, Nat.add_comm]
    refine Nat.succ_le_succ (foldl_max_le (Nat.zero_le n) ?_)
    exact List.forall_mem_map.2 fun value mem => (each value mem).depth

/-- `Plain (n + 1) (ofFields fields)`: one deeper than its members. -/
theorem plain_ofFields {fields : List (String × Json)} (each : ∀ m ∈ fields, Plain n m.2) :
    Plain (n + 1) (ofFields fields) := by
  refine ⟨?_, ?_⟩
  · rw [ofFields, isPlain.plainParts, List.all_map, List.all_eq_true]
    rintro ⟨⟨name, value⟩, mem⟩ -
    obtain ⟨m, hm, same⟩ := List.mem_map.1 mem
    cases same
    simp [(each m hm).parts]
  · rw [ofFields, Json.depth, Nat.add_comm]
    refine Nat.succ_le_succ (foldl_max_le (Nat.zero_le n) (List.forall_mem_map.2 ?_))
    rintro ⟨⟨name, value⟩, mem⟩ -
    obtain ⟨m, hm, same⟩ := List.mem_map.1 mem
    cases same
    exact (each m hm).depth

/-! ## Records and lists -/

/-- `named?` of the fields that are written is the fields. -/
theorem named?_fields (fields : List (String × Json)) :
    named? (fields.map fun (name, value) => (some name, value)) = some fields := by
  induction fields with
  | nil => rfl
  | cons m fields ih =>
    rw [named?] at ih ⊢
    simp [ih]

/-- `fullRecord? names` looks each name up in fields that are there once. -/
theorem fullRecord?_ofFields {names : List String} {fields : List (String × Json)}
    (once : unrepeated names fields = true) :
    (ofFields fields).fullRecord? names = some (names.map fun name => fields.lookup name) := by
  simp [fullRecord?, ofFields, record?, named?_fields, once, guard]

/-- `list? read?` reads an array back exactly if `read?` reads back each of its items. -/
theorem list?_map {α : Type} {write : α → Json} {read? : Json → Option α} {p : α → Prop}
    [DecidablePred p] {as : List α}
    (each : ∀ a ∈ as, read? (write a) = if p a then some a else none) :
    (Json.array (as.map write)).list? read? = if ∀ a ∈ as, p a then some as else none := by
  show (as.map write).mapM read? = _
  induction as with
  | nil => rfl
  | cons a as ih =>
    obtain ⟨first, rest⟩ := List.forall_mem_cons.1 each
    rw [List.map_cons, List.mapM_cons, first, ih rest]
    by_cases here : p a
    · by_cases later : ∀ a ∈ as, p a
      · rw [if_pos here, if_pos later, if_pos (List.forall_mem_cons.2 ⟨here, later⟩)]
        rfl
      · rw [if_pos here, if_neg later, if_neg fun all => later (List.forall_mem_cons.1 all).2]
        rfl
    · rw [if_neg here, if_neg fun all => here (List.forall_mem_cons.1 all).1]
      rfl

/-- `list? read?` reads an array back if `read?` reads back all of its items. -/
theorem list?_map_all {α : Type} {write : α → Json} {read? : Json → Option α} {as : List α}
    (each : ∀ a ∈ as, read? (write a) = some a) :
    (Json.array (as.map write)).list? read? = some as := by
  have guarded : ∀ a ∈ as, read? (write a) = if True then some a else none :=
    fun a mem => (each a mem).trans (if_pos trivial).symm
  exact (list?_map guarded).trans (if_pos fun _ _ => trivial)

/-- `(ofStrings names).strings? = some names`. -/
theorem strings?_ofStrings (names : List String) : (ofStrings names).strings? = some names :=
  list?_map_all fun _ _ => rfl

end Json

/-! ## Parts of a report -/

/-- `ofJson? l.toJson = some l` exactly if the literal has arguments. -/
theorem LiteralReport.ofJson?_toJson (l : LiteralReport) :
    ofJson? l.toJson = if l.args ≠ [] then some l else none := by
  obtain ⟨positive, predicate, args⟩ := l
  cases args with
  | nil =>
    rw [ofJson?, toJson, Json.fullRecord?_ofFields (by simp [Json.unrepeated])]
    rfl
  | cons a as =>
    rw [ofJson?, toJson, Json.fullRecord?_ofFields (by simp [Json.unrepeated])]
    simp [List.lookup_cons, Json.strings?_ofStrings, Json.bool?, Json.string?, Json.ofString]

/-- `ofJson? c.toJson = some c` exactly if every literal of the clause has arguments. -/
theorem ClauseReport.ofJson?_toJson (c : ClauseReport) :
    ofJson? c.toJson = if ∀ l ∈ c.literals, l.args ≠ [] then some c else none := by
  rw [ofJson?, toJson, Json.fullRecord?_ofFields (by simp [Json.unrepeated])]
  simp only [List.map_cons, List.map_nil, List.lookup_cons_self, Option.bind_eq_bind, Option.bind]
  rw [Json.list?_map fun l _ => l.ofJson?_toJson]
  by_cases all : ∀ l ∈ c.literals, l.args ≠ []
  · rw [if_pos all, if_pos all]
    rfl
  · rw [if_neg all, if_neg all]

/-- `ofJson? nothing b.toJson = some b`. -/
theorem Block.ofJson?_toJson (nothing : Json → Bool) (b : Block) :
    ofJson? nothing b.toJson = some b := by
  obtain ⟨q, xs⟩ := b
  rw [ofJson?, toJson, Json.fullRecord?_ofFields (by simp [Json.unrepeated])]
  cases q <;>
    simp [List.lookup_cons, Json.strings?_ofStrings, Quantifier.ofJson?, Quantifier.toJson,
      Json.choice?, Json.variant?, Json.ofString, Quantifier.choices, guard]

namespace Json

/-- `Plain 1 (ofStrings names)`. -/
theorem plain_ofStrings (names : List String) : Plain 1 (ofStrings names) :=
  plain_array (List.forall_mem_map.2 fun name _ => plain_ofString name)

/-- `Plain 2 l.toJson` for a literal. -/
theorem plain_literal (l : LiteralReport) : Plain 2 l.toJson := by
  refine plain_ofFields (List.forall_mem_append.2 ⟨?_, ?_⟩)
  · simp [(plain_bool _).mono, (plain_ofString _).mono]
  · split
    · exact List.forall_mem_nil _
    · exact List.forall_mem_singleton.2 (plain_ofStrings l.args)

/-- `Plain 4 c.toJson` for a clause. -/
theorem plain_clause (c : ClauseReport) : Plain 4 c.toJson :=
  plain_ofFields (List.forall_mem_singleton.2
    (plain_array (List.forall_mem_map.2 fun l _ => plain_literal l)))

/-- `Plain 2 b.toJson` for a block. -/
theorem plain_block (b : Block) : Plain 2 b.toJson := by
  refine plain_ofFields (List.forall_mem_cons.2 ⟨?_, ?_⟩)
  · cases h : b.quantifier <;> exact (plain_ofString _).mono (Nat.zero_le 1)
  · exact List.forall_mem_singleton.2 (plain_ofStrings b.bound)

end Json

/-! ## Reports -/

namespace Report

/-- `untag?` takes the tag from a record and leaves its fields. -/
theorem untag?_ofFields {tag : String} {fields : List (String × Json)}
    (others : ∀ m ∈ fields, m.1 ≠ "result") :
    untag? (ofFields (("result", ofString tag) :: fields)) = some (tag, ofFields fields) := by
  have filtered : (("result", ofString tag) :: fields).filter (fun m => m.1 ≠ "result") =
      fields := by
    rw [List.filter_cons_of_neg (by simp), List.filter_eq_self.2 (by simpa using others)]
  have once : Json.unrepeated ["result"] (("result", ofString tag) :: fields) = true := by
    have none : fields.countP (fun m => m.1 = "result") = 0 := by simpa using others
    simp [Json.unrepeated, none]
  rw [ofFields, untag?, Json.named?_fields]
  simp only [Option.bind_eq_bind, Option.bind_some, once, guard, if_true, List.lookup_cons_self,
    filtered]
  rfl

/-- `r.HasArguments`: every literal of the report has arguments. -/
def HasArguments : Report → Prop
  | normalized _ _ _ clauses => ∀ c ∈ clauses, ∀ l ∈ c.literals, l.args ≠ []
  | failed .. => True

instance : DecidablePred HasArguments
  | normalized _ _ _ clauses =>
    inferInstanceAs (Decidable (∀ c ∈ clauses, ∀ l ∈ c.literals, l.args ≠ []))
  | failed .. => inferInstanceAs (Decidable True)

/-- `Json.Plain 6 r.toJson`. -/
theorem plain_toJson (r : Report) : Json.Plain 6 r.toJson := by
  cases r with
  | failed stage label message =>
    refine Json.plain_ofFields ?_
    simp [(Json.plain_ofString _).mono]
  | normalized source text blocks clauses =>
    have blocks : Json.Plain 5 (.array (blocks.map Block.toJson)) :=
      (Json.plain_array (List.forall_mem_map.2 fun b _ => Json.plain_block b)).mono (by decide)
    have clauses : Json.Plain 5 (.array (clauses.map ClauseReport.toJson)) :=
      Json.plain_array (List.forall_mem_map.2 fun c _ => Json.plain_clause c)
    refine Json.plain_ofFields ?_
    cases source <;> simp [(Json.plain_ofString _).mono, blocks, clauses]

/-- `ofJson? r.toJson = some r` exactly if every literal has arguments. -/
theorem ofJson?_toJson (r : Report) :
    ofJson? r.toJson = if r.HasArguments then some r else none := by
  rw [ofJson?, (plain_toJson r).isPlain (by decide)]
  cases r with
  | failed stage label message =>
    have tagged : untag? (failed stage label message).toJson = some ("Failed", ofFields
        [("stage", ofString stage), ("axiom", ofString label), ("error", ofString message)]) :=
      untag?_ofFields (by simp)
    rw [tagged]
    simp only [Option.bind_eq_bind, Option.bind_some, guard, if_true]
    rw [Json.fullRecord?_ofFields (by simp [Json.unrepeated])]
    rfl
  | normalized source text blocks clauses =>
    have blocksRead : (Json.array (blocks.map Block.toJson)).list? (Block.ofJson? Json.isEmpty) =
        some blocks := Json.list?_map_all fun b _ => b.ofJson?_toJson _
    have clausesRead : (Json.array (clauses.map ClauseReport.toJson)).list? ClauseReport.ofJson? =
        if ∀ c ∈ clauses, ∀ l ∈ c.literals, l.args ≠ [] then some clauses else none :=
      Json.list?_map fun c _ => c.ofJson?_toJson
    -- The source is written only if there is one, so that the record has three fields or four.
    let fields := (source.toList.map fun s => ("source", ofString s)) ++
      [("ff_pcnf", ofString text), ("prefix", .array (blocks.map Block.toJson)),
        ("clauses", .array (clauses.map ClauseReport.toJson))]
    have tagged : untag? (normalized source text blocks clauses).toJson =
        some ("Normalized", ofFields fields) :=
      untag?_ofFields (by cases source <;> simp)
    have found : (ofFields fields).fullRecord? ["source", "ff_pcnf", "prefix", "clauses"] =
        some [source.map ofString, some (ofString text), some (.array (blocks.map Block.toJson)),
          some (.array (clauses.map ClauseReport.toJson))] := by
      cases source with
      | none => rw [Json.fullRecord?_ofFields (by simp [fields, Json.unrepeated])]; rfl
      | some source => rw [Json.fullRecord?_ofFields (by simp [fields, Json.unrepeated])]; rfl
    have sourceRead : Json.optional? (source.map ofString) = some source := by cases source <;> rfl
    rw [tagged]
    simp only [Option.bind_eq_bind, Option.bind_some, guard, if_true, found, sourceRead,
      blocksRead, clausesRead]
    by_cases arguments : ∀ c ∈ clauses, ∀ l ∈ c.literals, l.args ≠ []
    · rw [if_pos arguments, if_pos (by rwa [HasArguments])]
      rfl
    · rw [if_neg arguments, if_neg (by rwa [HasArguments])]
      rfl

end Report

/-! ## Reports about normalizations -/

namespace Formula

/-- `φ.matrix.signature = φ.signature`: quantifiers in front use no predicates. -/
theorem signature_matrix (φ : Formula) : φ.matrix.signature = φ.signature := by
  fun_induction matrix φ with
  | case1 q xs φ ih => rw [ih, signature_quantified]
  | case2 => rfl

/-- `φs.flatMap signature` are the predicates of the literals that stand in `φs`. -/
theorem mem_signature_iff_literals {φs : List Formula}
    (literals : ∀ φ ∈ φs, φ.isFunctionFreeLiteral = true) (p : String × Nat) :
    p ∈ φs.flatMap signature ↔ ∃ l ∈ φs.filterMap Literal.ofFormula?, l.atom.symbol = p := by
  have read := map_toFormula_filterMap literals
  generalize φs.filterMap Literal.ofFormula? = ls at read ⊢
  -- Each literal uses its own predicate.
  rw [← read, List.flatMap_map, List.mem_flatMap]
  refine exists_congr fun l => and_congr_right fun _ => ?_
  rw [Literal.signature_toFormula, List.mem_singleton, eq_comm]

/-- `φ.signature` are the predicates of the literals of `φ.clauses`. -/
theorem mem_signature_iff_clauses {φ : Formula} {clauses : List Clause}
    (h : φ.clauses = .ok clauses) (p : String × Nat) :
    p ∈ φ.signature ↔ ∃ c ∈ clauses, ∃ l ∈ c.literals, l.atom.symbol = p := by
  obtain ⟨clausal, rfl⟩ := clauses_eq_ok_iff.1 h
  rw [← signature_matrix, ← flatMap_membersOf signature_connective .and, List.mem_flatMap]
  simp only [List.mem_map, exists_exists_and_eq_and]
  refine exists_congr fun ψ => and_congr_right fun mem => ?_
  rw [← flatMap_membersOf signature_connective .or ψ]
  exact mem_signature_iff_literals (isClausal_iff.1 clausal ψ mem) p

end Formula

namespace Statement

/-- `s.normalize` succeeds only if `s.formula.validate` does. -/
theorem validate_eq_ok_of_normalize {s r : Statement} {settings : Settings}
    (normalized : (s.normalize settings).result = .ok r) : s.formula.validate = .ok () := by
  rw [result_normalize] at normalized
  obtain ⟨⟨⟩, valid, -⟩ := bind_eq_ok_iff.1 normalized
  exact mapError_eq_ok_iff.1 valid

/-- `r.formula.clauses` succeeds for a normal form `r`. -/
theorem exists_clauses_of_normalize {s r : Statement} {settings : Settings}
    (normalized : (s.normalize settings).result = .ok r) :
    ∃ clauses, r.formula.clauses = .ok clauses := by
  obtain ⟨ψ, -, -, outcome⟩ :=
    exists_outcome_of_validate (validate_eq_ok_of_normalize normalized) settings
  rw [normalized] at outcome
  cases outcome with
  | form _ _ normal =>
    exact Formula.exists_clauses_iff.2 (normal.isClausal fun a allowed => allowed.2)

/-- `HasArguments` of the report about a normalization: it failed, or every predicate of the formula
has arguments. -/
theorem hasArguments_ofResult_iff (s : Statement) (settings : Settings) :
    (Report.ofResult (s.normalize settings).result).HasArguments ↔
      (∃ f, (s.normalize settings).result = .error f) ∨ ∀ p ∈ s.formula.signature, p.2 ≠ 0 := by
  cases result : (s.normalize settings).result with
  | error f => exact ⟨fun _ => .inl ⟨f, rfl⟩, fun _ => trivial⟩
  | ok r =>
    have valid := validate_eq_ok_of_normalize result
    obtain ⟨clauses, clausal⟩ := exists_clauses_of_normalize result
    -- The arguments of a literal are reported one by one.
    have args : ∀ l : Literal, (LiteralReport.ofLiteral l).args ≠ [] ↔ l.atom.symbol.2 ≠ 0 := by
      intro l
      rw [LiteralReport.ofLiteral, Atom.symbol, Ne, List.map_eq_nil_iff, ← List.length_eq_zero_iff]
    have literals : (Report.ofResult (.ok r)).HasArguments ↔
        ∀ p ∈ r.formula.signature, p.2 ≠ 0 := by
      rw [Report.ofResult, Report.ofStatement, clausal]
      simp only [Report.HasArguments, List.forall_mem_map, ClauseReport.ofClause, args,
        Formula.mem_signature_iff_clauses clausal]
      constructor
      · rintro all p ⟨c, hc, l, hl, rfl⟩
        exact all c hc l hl
      · intro all c hc l hl
        exact all _ ⟨c, hc, l, hl, rfl⟩
    -- A function becomes a predicate with one argument more.
    have graphs : ∀ p ∈ s.formula.applications.map graphSymbol, p.2 ≠ 0 :=
      List.forall_mem_map.2 fun p _ => Nat.succ_ne_zero p.2
    rw [literals]
    simp only [mem_signature_of_normalize valid result, or_imp, forall_and, and_iff_left graphs]
    simp

/-- **Reports that are read back.** `ofJson? report.toJson = some report` exactly if the
normalization failed or every predicate of the formula has arguments. Otherwise the report is
refused. -/
theorem ofJson?_report_iff (s : Statement) (settings : Settings) :
    let report := Report.ofResult (s.normalize settings).result
    let complete := (∃ f, (s.normalize settings).result = .error f) ∨
      ∀ p ∈ s.formula.signature, p.2 ≠ 0
    (Report.ofJson? report.toJson = some report ↔ complete) ∧
      (¬ complete → Report.ofJson? report.toJson = none) := by
  intro report complete
  have read := report.ofJson?_toJson
  have arguments : report.HasArguments ↔ complete := hasArguments_ofResult_iff s settings
  by_cases holds : report.HasArguments
  · rw [if_pos holds] at read
    exact ⟨iff_of_true read (arguments.1 holds), fun without => absurd (arguments.1 holds) without⟩
  · rw [if_neg holds] at read
    refine ⟨iff_of_false ?_ (mt arguments.2 holds), fun _ => read⟩
    rw [read]
    exact Option.some_ne_none _ ∘ Eq.symm

/-- The statement `P()`, whose predicate has no arguments. -/
def proposition : Statement where
  formula := .atom ⟨"P", []⟩

/-- `proposition` is its own normal form, with a report that is not read back: the literal of its
only clause has no arguments, and reading asks for them. -/
theorem report_refused_without_arguments :
    (proposition.normalize {}).result = .ok proposition ∧
      Report.ofJson? (Report.ofResult (proposition.normalize {}).result).toJson = none := by
  have normalized : (proposition.normalize {}).result = .ok proposition :=
    normalize_of_passes (by cbv)
  refine ⟨normalized, ?_⟩
  rw [normalized]
  cbv

end Statement

end ClausalForm
