import ClausalForm.Proofs.SentenceGrammar
import ClausalForm.Proofs.Truth
import Mathlib

/-! # The meaning of sentences

What a sentence says is defined on its node, without any formula. A name in the place of a term
denotes what the innermost quantifier that binds it ranges over, and a constant if there is none.
The formula that is read says the same.

* **`Clif.Environment`**: what the quantifiers around a node bind.
* **`Clif.Node.value?`**, **`Clif.Node.Holds`**: the value of a term and the truth of a sentence.
* **`Clif.Reads.holds_iff`**: what is read below quantifiers says what its node says.
* **`Clif.sentence_accepts_and_means`**: the grammar and the meaning of the sentences. -/

namespace ClausalForm.Clif

/-- An element of the domain `D` for each name that a quantifier around a node binds. -/
abbrev Environment (D : Type) := String → Option D

variable {D : Type} {S : Structure D} {bound : List String} {node : Node} {φ : Formula}
  {e : Environment D} {v : Valuation D}

/-! ## Nodes -/

/-- `Environment.Ranges q xs p e`: a quantifier binds names one by one, so that of equal names the
last one counts. -/
def Environment.Ranges (q : Quantifier) :
    List String → (Environment D → Prop) → Environment D → Prop
  | [], p, e => p e
  | x :: xs, p, e =>
    q.Ranges (fun _ => True) fun d => Ranges q xs p (Function.update e x (some d))

namespace Node

/-- `node.value? S e`: the value of a term, if the node is one. Quoted strings are constants. -/
def value? (S : Structure D) (e : Environment D) : Node → Option D
  | symbol name _ => some ((e name).getD (S.function (Symbol.spell name) []))
  | quoted text _ => some (S.function (Symbol.spell text) [])
  | list (symbol function _ :: args) _ _ => do
    let ds ← inOrder (args.map (value? S e))
    return S.function (Symbol.spell function) ds
  | list .. => none

/-- **The direct reading.** `node.Holds S e`: the truth of a sentence as it is written. Sorts do not
count. -/
def Holds (S : Structure D) : Node → Environment D → Prop
  | symbol name _, _ => S.relation (Symbol.spell name) []
  | list [symbol "forall" _, list declarations _ _, body] _ _, e =>
    Environment.Ranges .universal (declarations.filterMap declared?) (body.Holds S) e
  | list [symbol "exists" _, list declarations _ _, body] _ _, e =>
    Environment.Ranges .existential (declarations.filterMap declared?) (body.Holds S) e
  | list (symbol "and" _ :: members) _ _, e => ∀ member, (_ : member ∈ members) → member.Holds S e
  | list (symbol "or" _ :: members) _ _, e => ∃ member, ∃ _ : member ∈ members, member.Holds S e
  | list [symbol "not" _, body] _ _, e => ¬ body.Holds S e
  | list [symbol "if" _, antecedent, consequent] _ _, e =>
    antecedent.Holds S e → consequent.Holds S e
  | list [symbol "iff" _, left, right] _ _, e => left.Holds S e ↔ right.Holds S e
  | list (symbol predicate _ :: args) _ _, e =>
    ∃ ds, inOrder (args.map (value? S e)) = some ds ∧ S.relation (Symbol.spell predicate) ds
  | _, _ => False

/-- `node.Holds S e` for a quantified sentence. -/
theorem holds_quantifier {q : Quantifier} {place first last start stop : Nat}
    {declarations : List Node} {body : Node} :
    (list [symbol (Keyword.quantifier q).name place, list declarations first last, body] start
      stop).Holds S e ↔
        Environment.Ranges q (declarations.filterMap declared?) (body.Holds S) e := by
  cases q <;> rw [Keyword.name, Holds]

/-- `node.Holds S e` for a connective. -/
theorem holds_connective {op : Connective} {place start stop : Nat} {members : List Node} :
    (list (symbol (Keyword.connective op).name place :: members) start stop).Holds S e ↔
      op.Joins (members.map fun member => member.Holds S e) := by
  cases op with
  | and =>
    rw [Keyword.name, Holds, Connective.Joins, List.forall_mem_map]
  | or =>
    rw [Keyword.name, Holds, Connective.Joins]
    simp only [exists_prop]
    constructor
    · rintro ⟨member, mem, h⟩
      exact ⟨_, List.mem_map_of_mem mem, h⟩
    · rintro ⟨p, mem, h⟩
      obtain ⟨member, hm, rfl⟩ := List.mem_map.1 mem
      exact ⟨member, hm, h⟩

/-- `node.Holds S e` for a predicate. -/
theorem holds_predicate {name : String} {place start stop : Nat} {args : List Node}
    (plain : ∀ k : Keyword, name ≠ k.name) :
    (list (symbol name place :: args) start stop).Holds S e ↔
      ∃ ds, inOrder (args.map (value? S e)) = some ds ∧ S.relation (Symbol.spell name) ds := by
  have universal := plain (.quantifier .universal)
  have existential := plain (.quantifier .existential)
  have and := plain (.connective .and)
  have or := plain (.connective .or)
  have not := plain .negation
  have implication := plain .implication
  have equivalence := plain .equivalence
  simp only [Keyword.name] at universal existential and or not implication equivalence
  rw [Holds] <;> simp_all

end Node

/-! ## Terms -/

/-- Below quantifiers that bind the variables `bound`, the environment gives a value to these
variables only, which is that of the valuation. -/
def Environment.Agrees (bound : List String) (e : Environment D) (v : Valuation D) : Prop :=
  ∀ x, e x = if x ∈ bound then some (v x) else none

/-- The values of a list, if each element has one. -/
theorem inOrder_map_eq_some {α β γ : Type} {f : α → Option γ} {g : β → γ} {as : List α}
    {bs : List β} (all : List.Forall₂ (fun a b => f a = some (g b)) as bs) :
    inOrder (as.map f) = some (bs.map g) := by
  induction all with
  | nil => rfl
  | cons first _ ih =>
    rw [List.map_cons, inOrder, first, ih]
    rfl

/-- `node.value? S e = some (t.value S v)`: the value of a term that is read is the value of its
node. -/
theorem ReadsTerm.value?_eq {t : Term} (h : ReadsTerm bound node t) (agrees : e.Agrees bound v) :
    node.value? S e = some (t.value S v) := by
  induction h with
  | «variable» isBound => rw [Node.value?, agrees, if_pos isBound, Option.getD_some, Term.value]
  | constant isFree =>
    rw [Node.value?, agrees, if_neg isFree, Option.getD_none, Term.of, Term.value, List.map_nil]
  | quoted => rw [Node.value?, Term.of, Term.value, List.map_nil]
  | application length _ ih =>
    have values := List.forall₂_iff_zip.2 ⟨length, fun {arg t} mem => ih (arg, t) mem⟩
    rw [Node.value?, inOrder_map_eq_some values, Term.of, Term.value]
    rfl

/-! ## Quantifiers -/

/-- Of the elements of a list that all have a value, none is left out. -/
theorem filterMap_eq_of_forall₂ {α β : Type} {f : α → Option β} {as : List α} {bs : List β}
    (all : List.Forall₂ (fun a b => f a = some b) as bs) : as.filterMap f = bs := by
  induction all with
  | nil => rfl
  | cons first _ ih => rw [List.filterMap_cons_some first, ih]

/-- `Environment.Agrees (x :: bound)`: inside of a quantifier over one variable. -/
theorem Environment.Agrees.update (agrees : e.Agrees bound v) (x : String) (d : D) :
    Environment.Agrees (x :: bound) (Function.update e x (some d)) (Function.update v x d) := by
  intro y
  by_cases same : y = x
  · subst same
    simp
  · simp [agrees y, same]

/-- What is bound counts, not in which order. -/
theorem Environment.Agrees.of_mem_iff {more : List String} (agrees : e.Agrees bound v)
    (same : ∀ x, x ∈ more ↔ x ∈ bound) : e.Agrees more v := fun x => by
  rw [agrees x]
  simp only [same]

/-- `quantified q [x] φ`: a quantifier over one variable ranges over the elements of the domain. -/
theorem holds_quantified_singleton {q : Quantifier} {x : String} :
    (Formula.quantified q [x] φ).Holds S v ↔
      q.Ranges (fun _ => True) fun d => φ.Holds S (Function.update v x d) := by
  rw [Formula.Holds]
  apply q.ranges_congr
  · intro w outside
    have same : w = Function.update v x (w x) := by
      funext y
      by_cases here : y = x
      · rw [here, Function.update_self]
      · rw [Function.update_of_ne here, outside y (by simpa using here)]
    exact ⟨w x, trivial, by rw [← same]⟩
  · intro d _
    refine ⟨Function.update v x d, fun y out => ?_, Iff.rfl⟩
    rw [Function.update_of_ne (by simpa using out)]

/-- `Environment.Ranges q xs p e`: binding names one by one is quantifying over all of them. -/
theorem ranges_iff_holds_quantified (q : Quantifier) (xs : List String)
    {p : Environment D → Prop}
    (body : ∀ (e : Environment D) (v : Valuation D), e.Agrees (xs ++ bound) v → (φ.Holds S v ↔ p e))
    (agrees : e.Agrees bound v) :
    (Formula.quantified q xs φ).Holds S v ↔ Environment.Ranges q xs p e := by
  induction xs generalizing bound e v with
  | nil => rw [Formula.holds_quantified_nil, Environment.Ranges, body e v agrees]
  | cons x xs ih =>
    have inner : ∀ (e : Environment D) (v : Valuation D), e.Agrees (xs ++ x :: bound) v →
        (φ.Holds S v ↔ p e) := fun e v agrees =>
      body e v (agrees.of_mem_iff fun y => by simp [or_left_comm])
    rw [← List.singleton_append, ← Formula.holds_quantified_quantified, holds_quantified_singleton,
      List.singleton_append, Environment.Ranges]
    exact q.ranges_iff fun d _ => ih inner (agrees.update x d)

/-! ## Sentences -/

/-- `disjoin (not φ) ψ`: of two formulas, the second one holds if the first one does. -/
theorem holds_implication {φ ψ : Formula} :
    (Formula.disjoin (.not φ) ψ).Holds S v ↔ (φ.Holds S v → ψ.Holds S v) := by
  rw [Formula.disjoin, Formula.holds_spliced, Formula.holds_or_iff]
  simp [Formula.Holds, imp_iff_not_or]

/-- `φ.Holds S v ↔ node.Holds S e`: what is read as a sentence says what its node says. -/
theorem Reads.holds_iff (h : Reads bound node φ) (agrees : e.Agrees bound v) :
    φ.Holds S v ↔ node.Holds S e := by
  induction h generalizing e v with
  | proposition => rw [Formula.Holds, Atom.Holds, Atom.of, List.map_nil, Node.Holds]
  | predicate plain args =>
    have values := inOrder_map_eq_some (args.imp fun _ _ read => read.value?_eq (S := S) agrees)
    rw [Node.holds_predicate (Keyword.ofName?_eq_none_iff.1 plain), values]
    simp [Formula.Holds, Atom.Holds, Atom.of]
  | @quantifier bound name place start stop q declarations body xs φ keyword declared inner ih =>
    obtain rfl := Keyword.ofName?_eq_some_iff.1 keyword
    obtain ⟨declarations, first, last, rfl, -, each⟩ := variableNames_eq_ok_iff.1 declared
    have names := filterMap_eq_of_forall₂ each
    rw [Formula.holds_quantify, Node.holds_quantifier, names]
    exact ranges_iff_holds_quantified q xs (fun e v agrees => ih agrees) agrees
  | @connective bound name place start stop op items φs ψ keyword length members built ih =>
    obtain rfl := Keyword.ofName?_eq_some_iff.1 keyword
    -- The members say the same one by one, and so the connective does whatever it splices.
    have same : φs.map (fun φ => φ.Holds S v) = items.map fun member => member.Holds S e := by
      rw [← List.forall₂_eq_eq_eq, List.forall₂_map_left_iff, List.forall₂_map_right_iff]
      exact (List.forall₂_iff_zip.2 ⟨length, fun {member φ} mem =>
        propext (ih (member, φ) mem agrees)⟩).flip
    rw [Formula.holds_combine built, Node.holds_connective, Formula.Holds, same]
  | negation keyword _ ih =>
    obtain rfl := Keyword.ofName?_eq_some_iff.1 keyword
    rw [Formula.Holds, ih agrees, Keyword.name, Node.Holds]
  | implication keyword _ _ ihLeft ihRight =>
    obtain rfl := Keyword.ofName?_eq_some_iff.1 keyword
    rw [holds_implication, ihLeft agrees, ihRight agrees, Keyword.name, Node.Holds]
  | equivalence keyword _ _ ihLeft ihRight =>
    obtain rfl := Keyword.ofName?_eq_some_iff.1 keyword
    rw [Formula.conjoin, Formula.holds_spliced, Formula.holds_and_iff, List.forall_mem_cons,
      List.forall_mem_singleton, holds_implication, holds_implication, ihLeft agrees,
      ihRight agrees, Keyword.name, Node.Holds]
    exact iff_iff_implies_and_implies.symm

/-- **Acceptance and meaning of sentences.** With no quantifier around it, a node is read exactly if
it is a sentence of the grammar (`Node.IsSentence`), and the formula that is read has the truth of
the sentence (`Node.Holds`) in every structure with a non-empty domain. -/
theorem sentence_accepts_and_means (node : Node) :
    ((∃ φ, sentence [] node = .ok φ) ↔ node.IsSentence) ∧
      ∀ φ, sentence [] node = .ok φ → ∀ {D : Type} [Nonempty D] (S : Structure D) (v : Valuation D),
        φ.Holds S v ↔ node.Holds S fun _ => none := by
  refine ⟨exists_sentence_iff, fun φ read D _ S v => ?_⟩
  exact (reads_of_sentence read).holds_iff fun x => (if_neg List.not_mem_nil).symm

/-- The sentence `(forall (x) (if (P x 'x') (exists ((x Sort)) (Q (f x)))))`, in which a name is
bound twice and quoted once. -/
def shadowing : Node :=
  .list [.symbol "forall" 56, .list [.symbol "x" 48] 49 46,
    .list [.symbol "if" 44, .list [.symbol "P" 40, .symbol "x" 38, .quoted "x" 36] 41 32,
      .list [.symbol "exists" 30, .list [.list [.symbol "x" 21, .symbol "Sort" 19] 22 14] 23 13,
        .list [.symbol "Q" 11, .list [.symbol "f" 8, .symbol "x" 6] 9 4] 12 3] 31 2] 45 1] 57 0

/-- `shadowingRead`: the formula that is read from it. -/
def shadowingRead : Formula :=
  .quantified .universal ["x"] (.connective .or
    [.not (.atom ⟨"P", [.var "x", .app "x" []]⟩),
      .quantified .existential ["x"] (.atom ⟨"Q", [.app "f" [.var "x"]]⟩)])

/-- Each occurrence of the name follows its innermost quantifier, and the quoted one is a
constant. -/
theorem holds_shadowing :
    sentence [] shadowing = .ok shadowingRead ∧ shadowing.IsSentence ∧
      ∀ {D : Type} [Nonempty D] (S : Structure D) (v : Valuation D), shadowingRead.Holds S v ↔
        ∀ d, S.relation "P" [d, S.function "x" []] → ∃ d', S.relation "Q" [S.function "f" [d']] := by
  have read : sentence [] shadowing = .ok shadowingRead := by cbv
  obtain ⟨accepts, means⟩ := sentence_accepts_and_means shadowing
  refine ⟨read, accepts.1 ⟨_, read⟩, fun S v => (means _ read S v).trans ?_⟩
  have spelled : Symbol.spell "P" = "P" ∧ Symbol.spell "Q" = "Q" ∧ Symbol.spell "f" = "f" ∧
      Symbol.spell "x" = "x" := by cbv
  simp [shadowing, Node.Holds, Node.value?, Node.declared?, Environment.Ranges, Quantifier.Ranges,
    inOrder, spelled]

end ClausalForm.Clif
