/-! # Classes of characters

Properties of characters from the Unicode Character Database, each given as a list of ranges of code
points with both ends included.

* **`inRanges`**: `inRanges ranges c = true` if the code point of `c` lies in one of the `ranges`.
* **`isSpace`**: the property `White_Space`. Any such character ends a symbol.
* **`isBlank`**: the four characters that may stand between tokens.
* **`isIgnorable`**: the property `Default_Ignorable_Code_Point`, version 17. Most of these are
  controls of the layout; the fillers of the Hangul script (`U+115F`, `U+1160`, `U+3164` and
  `U+FFA0`) are letters. -/

namespace ClausalForm.Text

/-- `inRanges ranges c`: whether the code point of `c` lies in one of the ranges. -/
def inRanges (ranges : List (Nat × Nat)) (c : Char) : Bool :=
  ranges.any fun r => r.1 ≤ c.toNat && c.toNat ≤ r.2

/-! ## White space -/

/-- The ranges of `White_Space`. -/
def spaceRanges : List (Nat × Nat) :=
  [ (0x9, 0xD), (0x20, 0x20), (0x85, 0x85), (0xA0, 0xA0), (0x1680, 0x1680), (0x2000, 0x200A),
    (0x2028, 0x2029), (0x202F, 0x202F), (0x205F, 0x205F), (0x3000, 0x3000) ]

/-- `isSpace c`: whether `c` is white space. -/
def isSpace (c : Char) : Bool := inRanges spaceRanges c

/-- `isBlank c`: whether `c` may separate tokens: a space, tab, carriage return or line feed. -/
def isBlank (c : Char) : Bool := c = ' ' || c = '\t' || c = '\r' || c = '\n'

/-- `isBlank c` implies `isSpace c`: blanks are white space. -/
theorem isSpace_of_isBlank {c : Char} (h : isBlank c = true) : isSpace c = true := by
  simp only [isBlank, Bool.or_eq_true, decide_eq_true_eq] at h
  rcases h with ((rfl | rfl) | rfl) | rfl <;> decide

/-! ## Ignorable characters -/

/-- The ranges of `Default_Ignorable_Code_Point`, in ascending order. -/
def ignorableRanges : List (Nat × Nat) :=
  [ (0xAD, 0xAD), (0x34F, 0x34F), (0x61C, 0x61C), (0x115F, 0x1160), (0x17B4, 0x17B5),
    (0x180B, 0x180F), (0x200B, 0x200F), (0x202A, 0x202E), (0x2060, 0x206F), (0x3164, 0x3164),
    (0xFE00, 0xFE0F), (0xFEFF, 0xFEFF), (0xFFA0, 0xFFA0), (0xFFF0, 0xFFF8), (0x1BCA0, 0x1BCA3),
    (0x1D173, 0x1D17A), (0xE0000, 0xE0FFF) ]

/-- `isIgnorable c`: whether `c` shows nothing where it stands. -/
def isIgnorable (c : Char) : Bool := inRanges ignorableRanges c

end ClausalForm.Text
