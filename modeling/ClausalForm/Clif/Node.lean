import ClausalForm.Clif.Token

/-! # Nodes of the interchange text

Tokens are put together to a forest of symbols, quoted strings and lists.

* **`Node`**: a tree with the places of its parts.
* **`Node.source`**: the text of a node.
* **`assemble`**: the first node of a list of tokens. The lists that are still open are kept
  beside it, so that the depth of a text does not matter.
* **`forest`**: all nodes of a list of tokens, and the place where reading stopped. -/

namespace ClausalForm.Clif

/-- A node with its places, each the number of bytes from there to the end of the text. -/
inductive Node where
  | symbol (name : String) (start : Nat)
  | quoted (text : String) (start : Nat)
  | list (items : List Node) (start stop : Nat)
deriving Repr, BEq, Inhabited

namespace Node

/-- `node.start`: the place where a node starts. -/
def start : Node → Nat
  | symbol _ start => start
  | quoted _ start => start
  | list _ start _ => start

/-- `node.name?`: the text that a node names, that of a symbol or a quoted string. -/
def name? : Node → Option String
  | symbol name _ => some name
  | quoted text _ => some text
  | list .. => none

/-- `node.source text`: the part of the text that a node was read from. A symbol takes as many bytes
of the text as its name has, and a quoted string does not keep its part. -/
def source (text : List Char) : Node → String
  | symbol name start => .ofList (Text.sliceAt text start (Text.utf8Size name.toList))
  | quoted .. => ""
  | list _ start stop => .ofList (Text.between text start stop)

end Node

/-- A list that is not closed yet, with the `items` read so far, the last one first. -/
structure OpenList where
  start : Nat
  items : List Node

/-- Why no node can be read. -/
inductive Unreadable where
  /-- A quotation mark has no partner. -/
  | unterminated (start : Nat)
  /-- The tokens do not start with a whole node. -/
  | noNode
deriving Repr, DecidableEq

/-- What a token does to the lists that are open. -/
inductive Step where
  /-- It ends a node that is in no open list. -/
  | done (node : Node)
  /-- These lists are open after it. -/
  | inside (lists : List OpenList)
  | failed (cause : Unreadable)

/-- `Step.finish node lists`: a node that ends inside of the given lists, innermost first. -/
def Step.finish (node : Node) : List OpenList → Step
  | [] => .done node
  | l :: outer => .inside ({ l with items := node :: l.items } :: outer)

/-- `Step.ofToken lists t`: the effect of the token `t` where the given lists are open. -/
def Step.ofToken (lists : List OpenList) (t : PlacedToken) : Step :=
  match t.token, lists with
  | .opening, lists => .inside (⟨t.start, []⟩ :: lists)
  | .closing, [] => .failed .noNode
  | .closing, l :: outer => .finish (.list l.items.reverse l.start t.stop) outer
  | .symbol name, lists => .finish (.symbol name t.start) lists
  | .quoted text, lists => .finish (.quoted text t.start) lists
  | .unterminated, _ => .failed (.unterminated t.start)
  | .stray, _ => .failed .noNode

/-- A node, the place where it ends and the tokens after it. -/
structure Assembled where
  node : Node
  stop : Nat
  rest : List PlacedToken

/-- `assemble lists ts`: the first node that is complete and in none of the open lists. -/
def assemble (lists : List OpenList) : List PlacedToken → Except Unreadable Assembled
  | [] => .error .noNode
  | t :: ts =>
    match Step.ofToken lists t with
    | .done node => .ok ⟨node, t.stop, ts⟩
    | .inside lists' => assemble lists' ts
    | .failed cause => .error cause

/-- `assemble` takes at least one token for a node. -/
theorem length_assemble {lists : List OpenList} {ts : List PlacedToken} {a : Assembled}
    (h : assemble lists ts = .ok a) : a.rest.length < ts.length := by
  induction ts generalizing lists with
  | nil => simp [assemble] at h
  | cons t ts ih =>
    unfold assemble at h
    split at h
    · simp [← Except.ok.inj h]
    · have := ih h
      simp
      omega
    · simp at h

/-- `startOf ts`: the place where a list of tokens starts, the end of the text if there are none. -/
def startOf : List PlacedToken → Nat
  | [] => 0
  | t :: _ => t.start

/-- `forest ts`: all nodes at the start of a list of tokens, and the place where no further one can
be read. A quotation mark without its partner is an error, given by its place. -/
def forest (ts : List PlacedToken) : Except Nat (List Node × Nat) :=
  match _found : assemble [] ts with
  | .ok a => do
    let (nodes, stop) ← forest a.rest
    return (a.node :: nodes, stop)
  | .error .noNode => .ok ([], startOf ts)
  | .error (.unterminated start) => .error start
termination_by ts.length
decreasing_by exact length_assemble _found

end ClausalForm.Clif
