import ClausalForm.Proofs.Sentences
import ClausalForm.Proofs.Signature

/-! # The grammar of sentences

The reader of sentences accepts a grammar of nodes, whatever is bound around them.

* **`Clif.Node.IsTerm`**, **`Clif.Node.declared?`**, **`Clif.Node.IsSentence`**: the grammar.
* **`Clif.Reads.isSentence`**: what is read follows the grammar.
* **`Clif.Node.IsSentence.exists_reads`**: what follows the grammar is read.
* **`Clif.exists_sentence_iff`**: the reader accepts the grammar. -/

namespace ClausalForm

/-! ## Formulas with atoms -/

namespace Formula

variable {op : Connective} {φ ψ : Formula} {φs : List Formula}

/-- The connective of two formulas uses what both use. -/
theorem signature_pair : (Formula.connective op (spliced op [φ, ψ])).signature =
    φ.signature ++ ψ.signature := by
  rw [signature_connective, flatMap_spliced signature_connective, List.flatMap_cons,
    List.flatMap_singleton]

/-- `combine op φs`: a connective can be built from formulas that have atoms, if there are any. -/
theorem exists_combine_of_signature (op : Connective) (some : φs ≠ [])
    (atoms : ∀ φ ∈ φs, φ.signature ≠ []) : ∃ ψ, combine op φs = .ok ψ := by
  cases built : combine op φs with
  | ok ψ => exact ⟨ψ, rfl⟩
  | error e =>
    obtain ⟨φ, mem⟩ := List.exists_mem_of_ne_nil φs some
    have none : φs.flatMap signature = [] := by
      rw [← flatMap_spliced signature_connective, (combine_eq_error_iff.1 built).1,
        List.flatMap_nil]
    exact absurd (List.flatMap_eq_nil_iff.1 none φ mem) (atoms φ mem)

end Formula

namespace Clif

/-! ## Keywords -/

/-- `k.name`: the symbol of a keyword. -/
def Keyword.name : Keyword → String
  | quantifier .universal => "forall"
  | quantifier .existential => "exists"
  | connective .and => "and"
  | connective .or => "or"
  | negation => "not"
  | implication => "if"
  | equivalence => "iff"

/-- `ofName? name = some k ↔ name = k.name`: a keyword is found by its symbol. -/
theorem Keyword.ofName?_eq_some_iff {name : String} {k : Keyword} :
    ofName? name = some k ↔ name = k.name := by
  constructor
  · intro h
    unfold ofName? at h
    split at h <;> cases h <;> rfl
  · rintro rfl
    match k with
    | quantifier .universal | quantifier .existential | connective .and | connective .or
    | negation | implication | equivalence => rfl

/-- All other symbols are no keywords. -/
theorem Keyword.ofName?_eq_none_iff {name : String} :
    ofName? name = none ↔ ∀ k : Keyword, name ≠ k.name := by
  rw [Option.eq_none_iff_forall_ne_some]
  exact forall_congr' fun k => not_congr ofName?_eq_some_iff

/-! ## The rules -/

namespace Node

/-- `node.IsTerm`: a term is a symbol, a quoted string, or a list of a symbol and terms. -/
inductive IsTerm : Node → Prop
  | symbol {name : String} {start : Nat} : IsTerm (.symbol name start)
  | quoted {text : String} {start : Nat} : IsTerm (.quoted text start)
  | application {function : String} {place start stop : Nat} {args : List Node}
      (each : ∀ arg ∈ args, IsTerm arg) :
      IsTerm (.list (.symbol function place :: args) start stop)

/-- `node.declared?`: the variable that a node declares, by a symbol or the symbol in front of a
sort. -/
def declared? : Node → Option String
  | symbol name _ => some name
  | list [symbol name _, _] _ _ => some name
  | _ => none

/-- **The grammar of sentences.** `node.IsSentence`: a sentence is a symbol, a keyword with its
operands, or any other symbol with terms. -/
inductive IsSentence : Node → Prop
  | proposition {name : String} {start : Nat} : IsSentence (.symbol name start)
  | predicate {name : String} {place start stop : Nat} {args : List Node}
      (plain : ∀ k : Keyword, name ≠ k.name) (each : ∀ arg ∈ args, arg.IsTerm) :
      IsSentence (.list (.symbol name place :: args) start stop)
  | quantifier {q : Quantifier} {place first last start stop : Nat} {declarations : List Node}
      {body : Node} (some : declarations ≠ [])
      (each : ∀ declaration ∈ declarations, ∃ x, declaration.declared? = .some x)
      (inner : IsSentence body) :
      IsSentence (.list [.symbol (Keyword.quantifier q).name place, .list declarations first last,
        body] start stop)
  | connective {op : Connective} {place start stop : Nat} {members : List Node}
      (some : members ≠ []) (each : ∀ member ∈ members, IsSentence member) :
      IsSentence (.list (.symbol (Keyword.connective op).name place :: members) start stop)
  | negation {place start stop : Nat} {body : Node} (inner : IsSentence body) :
      IsSentence (.list [.symbol Keyword.negation.name place, body] start stop)
  | implication {place start stop : Nat} {left right : Node} (antecedent : IsSentence left)
      (consequent : IsSentence right) :
      IsSentence (.list [.symbol Keyword.implication.name place, left, right] start stop)
  | equivalence {place start stop : Nat} {left right : Node} (first : IsSentence left)
      (second : IsSentence right) :
      IsSentence (.list [.symbol Keyword.equivalence.name place, left, right] start stop)

end Node

variable {bound : List String} {node : Node} {φ : Formula}

/-! ## What is read follows the grammar -/

/-- `ReadsTerm bound node t`: what is read as a term is a term. -/
theorem ReadsTerm.isTerm {t : Term} (h : ReadsTerm bound node t) : node.IsTerm := by
  induction h with
  | «variable» => exact .symbol
  | constant => exact .symbol
  | quoted => exact .quoted
  | application length _ ih => exact .application (forall_left_of_zip length ih)

/-- `variableName node = .ok x`: the variable that is read is the one that is declared. -/
theorem variableName_eq_ok_iff {x : String} :
    variableName node = .ok x ↔ node.declared? = some x := by
  unfold variableName Node.declared?
  split <;> simp_all

/-- `variableNames node = .ok xs`: the variables of a quantifier are those that the nodes of a list
declare, at least one. -/
theorem variableNames_eq_ok_iff {xs : List String} : variableNames node = .ok xs ↔
    ∃ declarations first last, node = .list declarations first last ∧ declarations ≠ [] ∧
      List.Forall₂ (fun declaration x => declaration.declared? = some x) declarations xs := by
  simp only [← variableName_eq_ok_iff]
  constructor
  · intro h
    unfold variableNames at h
    split at h
    · exact ⟨_, _, _, rfl, List.cons_ne_nil _ _, inOrder_map_eq_ok.1 h⟩
    · cases h
  · rintro ⟨declarations, first, last, rfl, some, each⟩
    match declarations with
    | [] => exact absurd rfl some
    | declaration :: declarations => exact inOrder_map_eq_ok.2 each

/-- `Reads bound node φ`: what is read as a sentence is a sentence. -/
theorem Reads.isSentence (h : Reads bound node φ) : node.IsSentence := by
  induction h with
  | proposition => exact .proposition
  | predicate plain args =>
    refine .predicate (Keyword.ofName?_eq_none_iff.1 plain) fun arg mem => ?_
    obtain ⟨t, -, read⟩ := forall₂_right args.flip mem
    exact read.isTerm
  | quantifier keyword declared _ ih =>
    obtain rfl := Keyword.ofName?_eq_some_iff.1 keyword
    obtain ⟨declarations, first, last, rfl, some, each⟩ := variableNames_eq_ok_iff.1 declared
    refine .quantifier some (fun declaration mem => ?_) ih
    obtain ⟨x, -, found⟩ := forall₂_right each.flip mem
    exact ⟨x, found⟩
  | connective keyword length members built ih =>
    obtain rfl := Keyword.ofName?_eq_some_iff.1 keyword
    refine .connective ?_ (forall_left_of_zip length ih)
    -- A connective without members is not built.
    rintro rfl
    obtain rfl := List.length_eq_zero_iff.1 length.symm
    cases built
  | negation keyword _ ih =>
    obtain rfl := Keyword.ofName?_eq_some_iff.1 keyword
    exact .negation ih
  | implication keyword _ _ ihLeft ihRight =>
    obtain rfl := Keyword.ofName?_eq_some_iff.1 keyword
    exact .implication ihLeft ihRight
  | equivalence keyword _ _ ihLeft ihRight =>
    obtain rfl := Keyword.ofName?_eq_some_iff.1 keyword
    exact .equivalence ihLeft ihRight

/-! ## What follows the grammar is read -/

/-- A term is read below any quantifiers. -/
theorem Node.IsTerm.exists_readsTerm (h : node.IsTerm) (bound : List String) :
    ∃ t, ReadsTerm bound node t := by
  induction h with
  | @symbol name start =>
    by_cases isBound : name ∈ bound
    · exact ⟨_, .variable isBound⟩
    · exact ⟨_, .constant isBound⟩
  | quoted => exact ⟨_, .quoted⟩
  | application _ ih =>
    obtain ⟨ts, args⟩ := exists_forall₂ ih
    obtain ⟨length, each⟩ := List.forall₂_iff_zip.1 args
    exact ⟨_, .application length fun p mem => each mem⟩

/-- `φ.signature ≠ []`: every formula that is read has an atom. -/
theorem Reads.signature_ne_nil (h : Reads bound node φ) : φ.signature ≠ [] := by
  induction h with
  | proposition => simp
  | predicate => simp
  | quantifier _ _ _ ih => rwa [Formula.signature_quantify]
  | @connective _ _ _ _ _ _ _ φs _ _ length _ built ih =>
    have atoms : ∀ φ ∈ φs, φ.signature ≠ [] :=
      forall_right_of_zip (s := fun φ => φ.signature ≠ []) length ih
    rw [Formula.signature_of_combine built]
    intro none
    match φs with
    | [] => cases built
    | φ :: φs =>
      exact atoms φ List.mem_cons_self (List.flatMap_eq_nil_iff.1 none φ List.mem_cons_self)
  | negation _ _ ih => rwa [Formula.signature_not]
  | implication _ _ _ ihLeft _ =>
    rw [Formula.disjoin, Formula.signature_pair, Formula.signature_not]
    exact List.append_ne_nil_of_left_ne_nil ihLeft _
  | equivalence _ _ _ ihLeft _ =>
    rw [Formula.conjoin, Formula.signature_pair, Formula.disjoin, Formula.signature_pair,
      Formula.signature_not, List.append_assoc]
    exact List.append_ne_nil_of_left_ne_nil ihLeft _

/-- A sentence is read below any quantifiers. -/
theorem Node.IsSentence.exists_reads (h : node.IsSentence) (bound : List String) :
    ∃ φ, Reads bound node φ := by
  induction h generalizing bound with
  | proposition => exact ⟨_, .proposition⟩
  | predicate plain each =>
    obtain ⟨ts, args⟩ := exists_forall₂ fun arg mem => (each arg mem).exists_readsTerm bound
    exact ⟨_, .predicate (Keyword.ofName?_eq_none_iff.2 plain) args⟩
  | quantifier some each _ ih =>
    obtain ⟨xs, declared⟩ := exists_forall₂ each
    obtain ⟨φ, inner⟩ := ih (xs ++ bound)
    exact ⟨_, .quantifier (Keyword.ofName?_eq_some_iff.2 rfl)
      (variableNames_eq_ok_iff.2 ⟨_, _, _, rfl, some, declared⟩) inner⟩
  | @connective op _ _ _ _ some _ ih =>
    obtain ⟨φs, members⟩ := exists_forall₂ fun member mem => ih member mem bound
    obtain ⟨length, each⟩ := List.forall₂_iff_zip.1 members
    -- Each member has an atom, so that the connective is not built from nothing.
    obtain ⟨ψ, built⟩ := Formula.exists_combine_of_signature op (ne_nil_of_forall₂ members some)
      (forall_right_of_forall₂ members fun _ _ read => read.signature_ne_nil)
    exact ⟨ψ, .connective (Keyword.ofName?_eq_some_iff.2 rfl) length (fun p mem => each mem) built⟩
  | negation _ ih =>
    obtain ⟨φ, inner⟩ := ih bound
    exact ⟨_, .negation (Keyword.ofName?_eq_some_iff.2 rfl) inner⟩
  | implication _ _ ihLeft ihRight =>
    obtain ⟨φ, left⟩ := ihLeft bound
    obtain ⟨ψ, right⟩ := ihRight bound
    exact ⟨_, .implication (Keyword.ofName?_eq_some_iff.2 rfl) left right⟩
  | equivalence _ _ ihLeft ihRight =>
    obtain ⟨φ, left⟩ := ihLeft bound
    obtain ⟨ψ, right⟩ := ihRight bound
    exact ⟨_, .equivalence (Keyword.ofName?_eq_some_iff.2 rfl) left right⟩

/-- `(∃ φ, sentence bound node = .ok φ) ↔ node.IsSentence`: the reader accepts the sentences of the
grammar and no other nodes, whatever is bound around them. -/
theorem exists_sentence_iff : (∃ φ, sentence bound node = .ok φ) ↔ node.IsSentence := by
  simp only [sentence_eq_ok_iff]
  constructor
  · rintro ⟨φ, read⟩
    exact read.isSentence
  · exact fun h => h.exists_reads bound

end Clif

end ClausalForm
