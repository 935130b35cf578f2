import ClausalForm.Proofs.Separation
import ClausalForm.Proofs.SymbolNames

/-! # Sentences as they are read

The reader of sentences is a function of a node and of the variables that are bound around it. Its
results are described here by relations with one rule for each kind of sentence, so that what holds
of every sentence is proved rule by rule.

* **`Clif.ReadsTerm`**, **`Clif.Reads`**: the term or formula that a node stands for.
* **`Clif.term_eq_ok_iff`**, **`Clif.sentence_eq_ok_iff`**: what is read is what follows the rules.
* **`Clif.Reads.wellFormed`**: a sentence that is read is well-formed.
* **`Clif.Reads.mem_of_free`**: a free variable of it is bound around it. -/

namespace ClausalForm

/-- What holds of each pair of two lists holds of the elements of the list on the right. -/
theorem forall_right_of_zip {α β : Type} {s : β → Prop} {as : List α} {bs : List β}
    (length : as.length = bs.length) (each : ∀ p ∈ as.zip bs, s p.2) : ∀ b ∈ bs, s b := by
  intro b mem
  rw [← List.map_snd_zip (Nat.le_of_eq length.symm)] at mem
  obtain ⟨p, hp, rfl⟩ := List.mem_map.1 mem
  exact each p hp

/-- What holds of each pair of two lists holds of the elements of the list on the left. -/
theorem forall_left_of_zip {α β : Type} {r : α → Prop} {as : List α} {bs : List β}
    (length : as.length = bs.length) (each : ∀ p ∈ as.zip bs, r p.1) : ∀ a ∈ as, r a := by
  intro a mem
  rw [← List.map_fst_zip (Nat.le_of_eq length)] at mem
  obtain ⟨p, hp, rfl⟩ := List.mem_map.1 mem
  exact each p hp

/-! ## Connectives of two formulas -/

namespace Formula

variable {leaves : Leaves} {op : Connective} {φ ψ : Formula}

/-- `combine op [φ, ψ]`: the connective of two well-formed formulas is built from them. -/
theorem WellFormed.combine_pair (left : φ.WellFormed leaves) (right : ψ.WellFormed leaves) :
    combine op [φ, ψ] = .ok (.connective op (spliced op [φ, ψ])) ∧
      (Formula.connective op (spliced op [φ, ψ])).WellFormed leaves := by
  have members : ∀ χ ∈ [φ, ψ], χ.WellFormed leaves :=
    List.forall_mem_cons.2 ⟨left, List.forall_mem_singleton.2 right⟩
  have built := combine_of_wellFormed op (Nat.le_refl [φ, ψ].length) members
  exact ⟨built, .of_combine members built⟩

/-- The connective of two formulas has the free occurrences of both. -/
theorem freeOccurrences_pair :
    (Formula.connective op (spliced op [φ, ψ])).freeOccurrences =
      φ.freeOccurrences ++ ψ.freeOccurrences := by
  rw [freeOccurrences_connective, flatMap_spliced freeOccurrences_connective, List.flatMap_cons,
    List.flatMap_singleton]

/-- `x ∈ (quantify q xs φ).freeOccurrences`: a quantifier that is built shields the variables that
it is built over. -/
theorem mem_freeOccurrences_quantify {q : Quantifier} {xs : List String} {x : String} :
    x ∈ (quantify q xs φ).freeOccurrences ↔ x ∈ φ.freeOccurrences ∧ x ∉ xs := by
  cases xs with
  | nil => simp [quantify, distinct]
  | cons y ys =>
    rw [quantify_of_ne_nil (List.cons_ne_nil y ys), mem_freeOccurrences_quantified, mem_distinct]

end Formula

namespace Clif

variable {bound : List String} {node : Node} {φ : Formula}

/-! ## Terms -/

/-- The term that a node stands for below quantifiers that bind the variables `bound`. -/
inductive ReadsTerm (bound : List String) : Node → Term → Prop
  | variable {name : String} {start : Nat} (isBound : name ∈ bound) :
      ReadsTerm bound (.symbol name start) (.var name)
  | constant {name : String} {start : Nat} (isFree : name ∉ bound) :
      ReadsTerm bound (.symbol name start) (.of name [])
  | quoted {text : String} {start : Nat} : ReadsTerm bound (.quoted text start) (.of text [])
  | application {function : String} {place start stop : Nat} {items : List Node} {ts : List Term}
      (length : items.length = ts.length) (args : ∀ p ∈ items.zip ts, ReadsTerm bound p.1 p.2) :
      ReadsTerm bound (.list (.symbol function place :: items) start stop) (.of function ts)

/-- `term bound node = .ok t`: what is read as a term follows the rules. -/
theorem readsTerm_of_term {t : Term} (h : term bound node = .ok t) : ReadsTerm bound node t := by
  fun_induction term bound node generalizing t with
  | case1 name start =>
    obtain rfl := Except.ok.inj h
    split
    · next isBound => exact .variable (List.contains_iff_mem.1 isBound)
    · next isFree => exact .constant fun mem => isFree (List.contains_iff_mem.2 mem)
  | case2 text start =>
    obtain rfl := Except.ok.inj h
    exact .quoted
  | case3 => cases h
  | case4 function place args start stop ih =>
    obtain ⟨ts, read, same⟩ := bind_eq_ok_iff.1 h
    obtain rfl := Except.ok.inj same
    have each := List.forall₂_iff_zip.1 (inOrder_map_eq_ok.1 read)
    exact .application each.1 fun p mem => ih p.1 (List.of_mem_zip mem).1 (each.2 mem)
  | case5 => cases h

/-- `ReadsTerm bound node t`: what follows the rules is read. -/
theorem term_of_readsTerm {t : Term} (h : ReadsTerm bound node t) : term bound node = .ok t := by
  induction h with
  | «variable» isBound => rw [term, if_pos (List.contains_iff_mem.2 isBound)]
  | constant isFree => rw [term, if_neg fun found => isFree (List.contains_iff_mem.1 found)]
  | quoted => rw [term]
  | application length _ ih =>
    rw [term]
    have read := inOrder_map_eq_ok.2 (List.forall₂_iff_zip.2 ⟨length, fun mem => ih _ mem⟩)
    exact bind_eq_ok_iff.2 ⟨_, read, rfl⟩

/-- `term bound node = .ok t ↔ ReadsTerm bound node t`: what is read as a term is what follows the
rules. -/
theorem term_eq_ok_iff {t : Term} : term bound node = .ok t ↔ ReadsTerm bound node t :=
  ⟨readsTerm_of_term, term_of_readsTerm⟩

/-- `x ∈ t.occurrences`: every variable of a term is bound around it. -/
theorem ReadsTerm.mem_of_occurs {t : Term} (h : ReadsTerm bound node t) :
    ∀ x ∈ t.occurrences, x ∈ bound := by
  induction h with
  | «variable» isBound => simpa [Term.occurrences] using isBound
  | constant _ => simp [Term.of, Term.occurrences]
  | quoted => simp [Term.of, Term.occurrences]
  | @application function place start stop items ts length _ ih =>
    rw [Term.of, Term.occurrences, List.forall_mem_flatMap]
    exact forall_right_of_zip length ih

/-! ## Sentences -/

/-- The formula that a node stands for below quantifiers that bind the variables `bound`. -/
inductive Reads : List String → Node → Formula → Prop
  | proposition {bound : List String} {name : String} {start : Nat} :
      Reads bound (.symbol name start) (.atom (.of name []))
  | predicate {bound : List String} {name : String} {place start stop : Nat} {items : List Node}
      {ts : List Term} (plain : Keyword.ofName? name = none)
      (args : List.Forall₂ (ReadsTerm bound) items ts) :
      Reads bound (.list (.symbol name place :: items) start stop) (.atom (.of name ts))
  | quantifier {bound : List String} {name : String} {place start stop : Nat} {q : Quantifier}
      {declarations body : Node} {xs : List String} {φ : Formula}
      (keyword : Keyword.ofName? name = some (.quantifier q))
      (declared : variableNames declarations = .ok xs) (inner : Reads (xs ++ bound) body φ) :
      Reads bound (.list [.symbol name place, declarations, body] start stop) (.quantify q xs φ)
  | connective {bound : List String} {name : String} {place start stop : Nat} {op : Connective}
      {items : List Node} {φs : List Formula} {ψ : Formula}
      (keyword : Keyword.ofName? name = some (.connective op)) (length : items.length = φs.length)
      (members : ∀ p ∈ items.zip φs, Reads bound p.1 p.2) (built : Formula.combine op φs = .ok ψ) :
      Reads bound (.list (.symbol name place :: items) start stop) ψ
  | negation {bound : List String} {name : String} {place start stop : Nat} {body : Node}
      {φ : Formula} (keyword : Keyword.ofName? name = some .negation) (inner : Reads bound body φ) :
      Reads bound (.list [.symbol name place, body] start stop) (.not φ)
  | implication {bound : List String} {name : String} {place start stop : Nat} {left right : Node}
      {φ ψ : Formula} (keyword : Keyword.ofName? name = some .implication)
      (antecedent : Reads bound left φ) (consequent : Reads bound right ψ) :
      Reads bound (.list [.symbol name place, left, right] start stop) (.disjoin (.not φ) ψ)
  | equivalence {bound : List String} {name : String} {place start stop : Nat} {left right : Node}
      {φ ψ : Formula} (keyword : Keyword.ofName? name = some .equivalence)
      (first : Reads bound left φ) (second : Reads bound right ψ) :
      Reads bound (.list [.symbol name place, left, right] start stop)
        (.conjoin (.disjoin (.not φ) ψ) (.disjoin (.not ψ) φ))

/-- `sentence bound node = .ok φ`: what is read as a sentence follows the rules. -/
theorem reads_of_sentence (h : sentence bound node = .ok φ) : Reads bound node φ := by
  -- By the cases of the reader: each one that does not fail is a rule.
  fun_induction sentence bound node generalizing φ with
  | case1 bound name start =>
    obtain rfl := Except.ok.inj h
    exact .proposition
  | case4 bound name place start stop args plain =>
    obtain ⟨ts, read, same⟩ := bind_eq_ok_iff.1 h
    obtain rfl := Except.ok.inj same
    exact .predicate plain ((inOrder_map_eq_ok.1 read).imp fun _ _ => term_eq_ok_iff.1)
  | case5 bound name place start stop q declarations body keyword ih =>
    obtain ⟨xs, declared, rest⟩ := bind_eq_ok_iff.1 h
    obtain ⟨ψ, read, same⟩ := bind_eq_ok_iff.1 rest
    obtain rfl := Except.ok.inj same
    exact .quantifier keyword declared (ih xs read)
  | case8 bound name place start stop op members some keyword ih =>
    obtain ⟨φs, read, built⟩ := bind_eq_ok_iff.1 h
    have each := List.forall₂_iff_zip.1 (inOrder_map_eq_ok.1 read)
    have built := mapError_eq_ok_iff.1 built
    exact .connective keyword each.1
      (fun p mem => ih p.1 (List.of_mem_zip mem).1 (each.2 mem)) built
  | case9 bound name place start stop body keyword ih =>
    obtain ⟨ψ, read, same⟩ := bind_eq_ok_iff.1 h
    obtain rfl := Except.ok.inj same
    exact .negation keyword (ih read)
  | case11 bound name place start stop left right keyword ihLeft ihRight =>
    obtain ⟨ψ, first, rest⟩ := bind_eq_ok_iff.1 h
    obtain ⟨χ, second, same⟩ := bind_eq_ok_iff.1 rest
    obtain rfl := Except.ok.inj same
    exact .implication keyword (ihLeft first) (ihRight second)
  | case13 bound name place start stop left right keyword ihLeft ihRight =>
    obtain ⟨ψ, first, rest⟩ := bind_eq_ok_iff.1 h
    obtain ⟨χ, second, same⟩ := bind_eq_ok_iff.1 rest
    obtain rfl := Except.ok.inj same
    exact .equivalence keyword (ihLeft first) (ihRight second)
  | _ => cases h

/-- `Reads bound node φ`: what follows the rules is read. -/
theorem sentence_of_reads (h : Reads bound node φ) : sentence bound node = .ok φ := by
  -- In each case the keyword decides how the operands are read.
  induction h with
  | proposition => rw [sentence]
  | predicate plain args =>
    unfold sentence
    simp only [plain]
    have read := inOrder_map_eq_ok.2 (args.imp fun _ _ => term_eq_ok_iff.2)
    exact bind_eq_ok_iff.2 ⟨_, read, rfl⟩
  | quantifier keyword declared _ ih =>
    unfold sentence
    simp only [keyword]
    exact bind_eq_ok_iff.2 ⟨_, declared, bind_eq_ok_iff.2 ⟨_, ih, rfl⟩⟩
  | @connective bound name place start stop op items φs ψ keyword length members built ih =>
    have read := inOrder_map_eq_ok.2 (List.forall₂_iff_zip.2 ⟨length, fun mem => ih _ mem⟩)
    unfold sentence
    simp only [keyword]
    cases items with
    | nil =>
      obtain rfl := List.length_eq_zero_iff.1 length.symm
      cases built
    | cons item items => exact bind_eq_ok_iff.2 ⟨_, read, mapError_eq_ok_iff.2 built⟩
  | negation keyword _ ih =>
    unfold sentence
    simp only [keyword]
    exact bind_eq_ok_iff.2 ⟨_, ih, rfl⟩
  | implication keyword _ _ ihLeft ihRight =>
    unfold sentence
    simp only [keyword]
    exact bind_eq_ok_iff.2 ⟨_, ihLeft, bind_eq_ok_iff.2 ⟨_, ihRight, rfl⟩⟩
  | equivalence keyword _ _ ihLeft ihRight =>
    unfold sentence
    simp only [keyword]
    exact bind_eq_ok_iff.2 ⟨_, ihLeft, bind_eq_ok_iff.2 ⟨_, ihRight, rfl⟩⟩

/-- `sentence bound node = .ok φ ↔ Reads bound node φ`: what is read as a sentence is what follows
the rules. -/
theorem sentence_eq_ok_iff : sentence bound node = .ok φ ↔ Reads bound node φ :=
  ⟨reads_of_sentence, sentence_of_reads⟩

/-! ## What is read -/

/-- `IsBinder (distinct xs)`: the variables that are declared can be bound once repetitions are left
out. -/
theorem isBinder_of_variableNames {declarations : Node} {xs : List String}
    (lexical : declarations.Lexical) (declared : variableNames declarations = .ok xs) :
    xs ≠ [] ∧ IsBinder (distinct xs) := by
  unfold variableNames at declared
  split at declared
  · next item items start stop =>
    rw [inOrder_map_eq_ok] at declared
    have some := ne_nil_of_forall₂ declared (List.cons_ne_nil _ _)
    refine ⟨some, .of_distinct some ?_⟩
    intro unnamed
    obtain ⟨node, mem, found⟩ := forall₂_right declared unnamed
    cases lexical with
    | list each =>
      -- A declaration is a symbol, or a list of two items the first of which is one.
      unfold variableName at found
      split at found
      · cases each _ mem with
        | symbol named => exact named.some (Except.ok.inj found)
      · cases each _ mem with
        | list parts =>
          cases parts _ List.mem_cons_self with
          | symbol named => exact named.some (Except.ok.inj found)
      · cases found
  · cases declared

/-- The items of a list whose symbols are named as they must be. -/
theorem Node.Lexical.of_mem {items : List Node} {start stop : Nat}
    (h : (Node.list items start stop).Lexical) (mem : node ∈ items) : node.Lexical := by
  cases h with
  | list each => exact each node mem

/-- The name of a symbol is spelled as something. -/
theorem Node.Lexical.spell_ne_empty {name : String} {start : Nat}
    (h : (Node.symbol name start).Lexical) : Symbol.spell name ≠ "" := by
  cases h with
  | symbol named => exact named.spell_ne_empty

/-- `φ.WellFormed .named`: a sentence that is read is well-formed. -/
theorem Reads.wellFormed (h : Reads bound node φ) (lexical : node.Lexical) :
    φ.WellFormed .named := by
  induction h with
  | proposition => exact .atom lexical.spell_ne_empty
  | predicate plain args => exact .atom (lexical.of_mem List.mem_cons_self).spell_ne_empty
  | quantifier keyword declared inner ih =>
    obtain ⟨some, binder⟩ := isBinder_of_variableNames (lexical.of_mem (by simp)) declared
    rw [Formula.quantify_of_ne_nil some]
    exact .quantified binder (ih (lexical.of_mem (by simp)))
  | @connective bound name place start stop op items φs ψ keyword length members built ih =>
    refine .of_combine (forall_right_of_zip length fun p mem => ih p mem ?_) built
    exact lexical.of_mem (List.mem_cons_of_mem _ (List.of_mem_zip mem).1)
  | negation keyword inner ih => exact .not (.inr trivial) (ih (lexical.of_mem (by simp)))
  | implication keyword antecedent consequent ihLeft ihRight =>
    have left := ihLeft (lexical.of_mem (by simp))
    have right := ihRight (lexical.of_mem (by simp))
    exact (Formula.WellFormed.combine_pair (.not (.inr trivial) left) right).2
  | equivalence keyword first second ihLeft ihRight =>
    have left := ihLeft (lexical.of_mem (by simp))
    have right := ihRight (lexical.of_mem (by simp))
    have forth : (Formula.disjoin (.not _) _).WellFormed .named :=
      (Formula.WellFormed.combine_pair (.not (.inr trivial) left) right).2
    have back : (Formula.disjoin (.not _) _).WellFormed .named :=
      (Formula.WellFormed.combine_pair (.not (.inr trivial) right) left).2
    exact (forth.combine_pair back).2

/-- `x ∈ φ.freeOccurrences`: every free variable of a sentence that is read is bound around it. -/
theorem Reads.mem_of_free (h : Reads bound node φ) : ∀ x ∈ φ.freeOccurrences, x ∈ bound := by
  induction h with
  | proposition => simp [Atom.of, Atom.occurrences]
  | predicate plain args =>
    rw [Formula.freeOccurrences_atom, Atom.of, Atom.occurrences, List.forall_mem_flatMap]
    exact forall_right_of_forall₂ args fun _ _ read => read.mem_of_occurs
  | @quantifier bound name place start stop q declarations body xs φ keyword declared inner ih =>
    intro x mem
    rw [Formula.mem_freeOccurrences_quantify] at mem
    exact (List.mem_append.1 (ih x mem.1)).resolve_left mem.2
  | @connective bound name place start stop op items φs ψ keyword length members built ih =>
    rw [Formula.freeOccurrences_of_combine built, List.forall_mem_flatMap]
    exact forall_right_of_zip length ih
  | negation keyword inner ih =>
    rw [Formula.freeOccurrences_not]
    exact ih
  | implication keyword antecedent consequent ihLeft ihRight =>
    rw [Formula.disjoin, Formula.freeOccurrences_pair, Formula.freeOccurrences_not]
    exact List.forall_mem_append.2 ⟨ihLeft, ihRight⟩
  | equivalence keyword first second ihLeft ihRight =>
    rw [Formula.conjoin, Formula.freeOccurrences_pair, Formula.disjoin, Formula.disjoin,
      Formula.freeOccurrences_pair, Formula.freeOccurrences_pair, Formula.freeOccurrences_not,
      Formula.freeOccurrences_not]
    have both := List.forall_mem_append.2 ⟨ihLeft, ihRight⟩
    exact List.forall_mem_append.2 ⟨both, List.forall_mem_append.2 ⟨ihRight, ihLeft⟩⟩

end Clif

end ClausalForm
