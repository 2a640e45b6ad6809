import EditorMode.Text.Basic
import EditorMode.Fault

/-! # Visual columns

The **column** of a position is the width of what stands to its left: one per character, except
that a tab reaches to the next multiple of the tab size.  Columns and indents are numbers of 32
bits, and every addition on them is checked: `Column.add` is the only place where a column
overflows. -/

namespace EditorMode.Column

/-- The largest column: a number of 32 bits. -/
def largest : Nat := 4294967295

/-- The sum of a column and a width, unless it exceeds the largest column. -/
def add (column width : Nat) : Except Fault Nat :=
  if column + width ≤ largest then .ok (column + width) else .error .columnOverflow

theorem add_eq_ok {column width sum : Nat} :
    add column width = .ok sum ↔ sum = column + width ∧ column + width ≤ largest := by
  unfold add
  split <;> simp_all [eq_comm]

/-- Width of a character that stands at `column`. -/
def width (tabSize column : Nat) (c : Char) : Nat :=
  if c = '\t' then tabSize - column % tabSize else 1

/-- Between tab stops, every character is at least one column wide. -/
theorem width_pos {tabSize column : Nat} (c : Char) (h : 0 < tabSize) :
    0 < width tabSize column c := by
  have := Nat.mod_lt column h
  unfold width
  split <;> omega

/-- The column after reading one character. -/
def after (tabSize column : Nat) (c : Char) : Except Fault Nat :=
  add column (width tabSize column c)

/-- The column after reading a text from `column` on. -/
def advance (tabSize column : Nat) (t : Text) : Except Fault Nat :=
  t.foldlM (after tabSize) column

@[simp] theorem advance_nil (tabSize column : Nat) : advance tabSize column [] = .ok column := rfl

@[simp] theorem advance_cons (tabSize column : Nat) (c : Char) (t : Text) :
    advance tabSize column (c :: t) =
      (after tabSize column c).bind fun next => advance tabSize next t := by
  simp [advance, bind]

/-- Reading a text in two parts reaches the same column. -/
theorem advance_append (tabSize column : Nat) (a b : Text) :
    advance tabSize column (a ++ b) =
      (advance tabSize column a).bind fun middle => advance tabSize middle b := by
  simp [advance, bind]

/-- Tab sizes are at least one: zero acts as one. -/
def tabSize (requested : Nat) : Nat := max requested 1

theorem tabSize_pos (requested : Nat) : 0 < tabSize requested := by
  unfold tabSize
  omega

/-- The width of a text that starts at the left margin. -/
def count (t : Text) (requested : Nat) : Except Fault Nat :=
  advance (tabSize requested) 0 t

end EditorMode.Column
