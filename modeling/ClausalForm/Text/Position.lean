/-! # Positions in a text

Offsets count bytes of the text's UTF-8 encoding; positions count lines and characters from 1.

* **`utf8Size`**: the number of bytes of a list of characters.
* **`splitBytes?`**: a text cut at an offset that falls between two characters.
* **`Position.ofOffset`**: the line and column of an offset.
* **`sliceAt`**, **`between`**: the part of a text at a place counted from its end, of so many bytes
  or up to another place. -/

namespace ClausalForm

namespace Text

/-- `utf8Size cs`: the number of bytes that characters take. -/
def utf8Size : List Char → Nat
  | [] => 0
  | c :: cs => c.utf8Size + utf8Size cs

@[simp] theorem utf8Size_nil : utf8Size [] = 0 := rfl

@[simp] theorem utf8Size_cons (c : Char) (cs : List Char) :
    utf8Size (c :: cs) = c.utf8Size + utf8Size cs := rfl

@[simp] theorem utf8Size_append (cs ds : List Char) :
    utf8Size (cs ++ ds) = utf8Size cs + utf8Size ds := by
  induction cs with
  | nil => simp
  | cons c cs ih => simp only [List.cons_append, utf8Size_cons, ih]; omega

/-- The characters in the first `n` bytes, and those after them. There is no such cut inside a
character or past the end. -/
def splitBytes? : Nat → List Char → Option (List Char × List Char)
  | 0, cs => some ([], cs)
  | _ + 1, [] => none
  | n + 1, c :: cs =>
    if c.utf8Size ≤ n + 1 then
      (splitBytes? (n + 1 - c.utf8Size) cs).map fun (before, after) => (c :: before, after)
    else none

/-- `splitBytes? (utf8Size before) (before ++ after)`: a text is cut between any two parts of it. -/
theorem splitBytes?_append (before after : List Char) :
    splitBytes? (utf8Size before) (before ++ after) = some (before, after) := by
  induction before with
  | nil => simp [splitBytes?]
  | cons c before ih =>
    have pos := c.utf8Size_pos
    obtain ⟨n, hn⟩ : ∃ n, utf8Size (c :: before) = n + 1 :=
      ⟨utf8Size (c :: before) - 1, by simp; omega⟩
    have size : n + 1 - c.utf8Size = utf8Size before := by simp at hn; omega
    have fits : c.utf8Size ≤ n + 1 := by simp at hn; omega
    rw [hn, List.cons_append, splitBytes?, if_pos fits, size, ih]
    rfl

/-- `sliceAt text start size`: the characters in the `size` bytes of a text from the place `start`
on, which is given by the number of bytes from it to the end. There are none if the bytes are no
part of the text, or split a character. -/
def sliceAt (text : List Char) (start size : Nat) : List Char :=
  match splitBytes? (utf8Size text - start) text with
  | none => []
  | some (_, rest) => ((splitBytes? size rest).map Prod.fst).getD []

/-- `between text start stop`: the characters of a text between two places, each given by the number
of bytes from it to the end. -/
def between (text : List Char) (start stop : Nat) : List Char := sliceAt text start (start - stop)

end Text

/-- A place in a text, by its line and the character of that line. Both are counted from `1`. -/
structure Position where
  line : Nat
  column : Nat
deriving Repr, DecidableEq, Inhabited

namespace Position

/-- `Position.start`: the place of the first character. -/
def start : Position := ⟨1, 1⟩

/-- `p.advance c`: the place after a character. -/
def advance (p : Position) (c : Char) : Position :=
  if c = '\n' then ⟨p.line + 1, 1⟩ else ⟨p.line, p.column + 1⟩

/-- `Position.after cs`: the place after a list of characters. -/
def after (cs : List Char) : Position := cs.foldl advance start

/-- `Position.ofOffset text offset`: the place of an offset in bytes. One past the end, or inside a
character, counts as the end. -/
def ofOffset (text : String) (offset : Nat) : Position :=
  let before := (Text.splitBytes? offset text.toList).map Prod.fst
  after (before.getD text.toList)

/-- `p.describe message`: a message about the place. -/
def describe (p : Position) (message : String) : String :=
  message ++ " at line " ++ toString p.line ++ ", column " ++ toString p.column

end Position

end ClausalForm
