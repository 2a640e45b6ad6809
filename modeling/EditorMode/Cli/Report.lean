import EditorMode.Fold
import EditorMode.Text.Decimal
import EditorMode.Text.Quoted

/-! # Reports on a document

What the command line prints about a document: a row for every token, a row for every line whose
indentation can be compared with the suggested one, or the place of a fold.  Lines are counted from
one in all of them. -/

namespace EditorMode.Cli

/-! ## Tokens -/

/-- A row on one token: its place, its category and its text in quotes. -/
def tokenRow (escaping : Text.Escaping) (lineNumber : Nat) (t : Token) : Text :=
  "  ".toList ++ Text.decimal lineNumber ++ ":".toList ++ Text.decimal t.start ++ "..".toList ++
    Text.decimal t.stop ++ " ".toList ++ t.category.name.toList ++ " ".toList ++
    Text.quoted escaping t.text ++ "\n".toList

/-- The rows on the tokens of consecutive lines, the first of which has the given number. -/
def tokenRows (escaping : Text.Escaping) (lineNumber : Nat) : List Document.Line → Text
  | [] => []
  | line :: lines =>
    line.tokens.flatMap (tokenRow escaping lineNumber) ++ tokenRows escaping (lineNumber + 1) lines

/-- Number of all tokens of a document. -/
def tokenCount (doc : Document) : Nat := (doc.lines.flatMap (·.tokens)).length

/-! ## Indentation -/

/-- A line whose indentation is compared with the suggested column. -/
structure IndentRow where
  lineNumber : Nat
  actual : Nat
  suggested : Nat
  text : Text
  deriving DecidableEq, Repr

namespace IndentRow

/-- Whether the line stands where it should. -/
def agrees (row : IndentRow) : Bool := row.actual == row.suggested

/-- The row as it is printed. -/
def render (row : IndentRow) : Text :=
  "  ".toList ++ (if row.agrees then "ok" else "!!").toList ++ " ".toList ++
    Text.paddedDecimal 4 row.lineNumber ++ ": ".toList ++ Text.paddedDecimal 3 row.actual ++
    " (suggested ".toList ++ Text.paddedDecimal 3 row.suggested ++ ") ".toList ++
    Text.trim row.text ++ "\n".toList

end IndentRow

/-- The row on a line, given the state at the end of the line before.  There is none on a blank
line, nor on one that begins inside a string or comment. -/
def indentRow? (config : Config) (lineNumber : Nat) (before : State) (text : Text) :
    Except Fault (Option IndentRow) :=
  if Text.isAllBlank text then .ok none
  else do
    match ← before.indent config text with
    | none => return none
    | some suggested =>
      let actual ← (Cursor.ofLine text config.tabSize).indentation
      return some { lineNumber, actual, suggested, text }

/-- The rows on consecutive lines, the first of which has the given number and is read from the
given state. -/
def indentRowsFrom (config : Config) (lineNumber : Nat) (before : State) :
    List Document.Line → Except Fault (List IndentRow)
  | [] => .ok []
  | line :: lines => do
    let row? ← indentRow? config lineNumber before line.text
    let rows ← indentRowsFrom config (lineNumber + 1) line.state lines
    return row?.toList ++ rows

/-- The rows on a document.  Its first line has no line before it, and no row. -/
def indentRows (config : Config) (doc : Document) : Except Fault (List IndentRow) :=
  match doc.lines with
  | [] => .ok []
  | first :: others => indentRowsFrom config 2 first.state others

/-- Number of lines that stand elsewhere than suggested. -/
def mismatches (rows : List IndentRow) : Nat := rows.countP (!·.agrees)

/-! ## Folds -/

/-- A position as it is printed. -/
def positionText (p : Position) : Text :=
  Text.decimal (p.line + 1) ++ ":".toList ++ Text.decimal p.offset

/-- What is said about the fold that starts on a line. -/
def foldText (i : Nat) : Option Fold → Text
  | some fold => positionText fold.start ++ " .. ".toList ++ positionText fold.stop ++ "\n".toList
  | none => "no fold on line ".toList ++ Text.decimal (i + 1) ++ "\n".toList

end EditorMode.Cli
