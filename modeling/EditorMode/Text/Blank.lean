import EditorMode.Text.Basic

/-! # Blank characters

A character is **blank** if it has the Unicode property `White_Space`: twenty-five characters, of
which six are ASCII.  The indentation of a line is its longest blank beginning. -/

namespace EditorMode.Text

/-- The ranges of the Unicode property `White_Space`. -/
def blankRanges : List (Nat × Nat) :=
  [(0x09, 0x0D), (0x20, 0x20), (0x85, 0x85), (0xA0, 0xA0), (0x1680, 0x1680), (0x2000, 0x200A),
   (0x2028, 0x2029), (0x202F, 0x202F), (0x205F, 0x205F), (0x3000, 0x3000)]

/-- Whether a character has the property `White_Space`. -/
def isBlank (c : Char) : Bool :=
  blankRanges.any fun range => range.1 ≤ c.toNat && c.toNat ≤ range.2

/-- The six ASCII blanks, among them all that the standard library counts as white space. -/
theorem isBlank_of_isWhitespace {c : Char} (h : c.isWhitespace) : isBlank c := by
  simp only [Char.isWhitespace, Bool.or_eq_true, decide_eq_true_eq] at h
  rcases h with ((rfl | rfl) | rfl) | rfl <;> decide

/-- The longest blank beginning of a text. -/
def leadingBlank (t : Text) : Text := t.takeWhile isBlank

/-- A text without its leading blanks. -/
def trimStart (t : Text) : Text := t.dropWhile isBlank

/-- A text without its leading and trailing blanks. -/
def trim (t : Text) : Text := ((trimStart t).reverse.dropWhile isBlank).reverse

theorem leadingBlank_append_trimStart (t : Text) : leadingBlank t ++ trimStart t = t :=
  List.takeWhile_append_dropWhile

/-- The first character of a text that is not blank. -/
def firstVisible? (t : Text) : Option Char := (trimStart t).head?

/-- Whether a text holds nothing but blanks. -/
def isAllBlank (t : Text) : Bool := t.all isBlank

theorem firstVisible?_eq_find? (t : Text) : firstVisible? t = t.find? fun c => !isBlank c := by
  induction t with
  | nil => rfl
  | cons c t ih =>
    by_cases hc : isBlank c <;>
      simp_all [firstVisible?, trimStart]

/-- A text is all blank exactly if no visible character is found in it. -/
theorem firstVisible?_eq_none {t : Text} : firstVisible? t = none ↔ isAllBlank t := by
  simp [firstVisible?_eq_find?, isAllBlank]

end EditorMode.Text
