import EditorMode.Text.Basic

/-! # Lines

A line feed ends a line, together with one carriage return right before it.  What follows the last
line feed is a line of its own unless it is empty, and keeps a carriage return at its end. -/

namespace EditorMode.Text

/-- The lines of a text, without their terminators. -/
def lines : Text → List Text
  | [] => []
  | '\r' :: '\n' :: t => [] :: lines t
  | '\n' :: t => [] :: lines t
  | c :: t =>
    match lines t with
    | [] => [[c]]
    | first :: others => (c :: first) :: others

@[simp] theorem lines_nil : lines [] = [] := rfl

@[simp] theorem lines_lineFeed (t : Text) : lines ('\n' :: t) = [] :: lines t := by
  simp [lines]

@[simp] theorem lines_returnLineFeed (t : Text) : lines ('\r' :: '\n' :: t) = [] :: lines t := by
  simp [lines]

end EditorMode.Text
