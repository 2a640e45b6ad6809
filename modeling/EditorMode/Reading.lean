import EditorMode.Construct
import EditorMode.Word

/-! # Reading one token

What the next token is depends on three things only: the construct that is pending, the characters
to come, and the extra atoms.  A pending construct goes on.  Otherwise blanks are one token; a
quote begins a string, `/*` a block comment and `//` a comment to the end of the line; punctuation
stands alone; a digit begins a run of digits and dots; anything else takes the word characters that
follow it.

A **reading** is the result: the token's category, its character if it is punctuation, the
construct left pending, and the cursor behind it. -/

namespace EditorMode

/-- What reading one token finds. -/
structure Reading where
  category : Category
  /-- The token's character, if the token is punctuation. -/
  mark : Option Char
  /-- The construct that the token leaves unfinished. -/
  pending : Option Construct
  /-- The cursor behind the token. -/
  cursor : Cursor
  deriving DecidableEq, Repr

/-- Reads a construct, whose opening delimiter has been read, as one token. -/
def Construct.read (k : Construct) (s : Cursor) : Reading :=
  match k.scan s with
  | (.closed, behind) => ⟨k.category, none, none, behind⟩
  | (.unfinished, behind) => ⟨k.category, none, some k, behind⟩

theorem Construct.cursor_read (k : Construct) (s : Cursor) :
    (k.read s).cursor = (k.scan s).2 := by
  unfold Construct.read
  split <;> simp_all

namespace Cursor

/-- Whether a character begins a string, which the same character will close. -/
def isQuote (c : Char) : Bool := c == '\"' || c == '\x60'

/-- Reads the rest of a bare word. -/
def readWord (extraAtoms : WordSet) (s : Cursor) : Reading :=
  let behind := s.eatWhile Word.isWordChar
  ⟨Word.category extraAtoms behind.lexeme, none, none, behind⟩

/-- Reads what follows a slash: a comment or a word. -/
def readAfterSlash (extraAtoms : WordSet) (s : Cursor) : Reading :=
  match s.eat? '*' with
  | some inside => Construct.blockComment.read inside
  | none =>
    match s.eat? '/' with
    | some inside => ⟨.comment, none, none, inside.skipToEnd⟩
    | none => s.readWord extraAtoms

/-- Reads a token that begins with a character that is not blank, nothing being pending. -/
def readFresh (extraAtoms : WordSet) (s : Cursor) : Reading :=
  match s.advance? with
  | none => ⟨.unstyled, none, none, s⟩
  | some (c, s) =>
    if isQuote c then (Construct.string c).read s
    else if Word.isPunctuation c then ⟨.punctuation, some c, none, s⟩
    else if c.isDigit then ⟨.number, none, none, s.eatWhile fun d => d.isDigit || d == '.'⟩
    else if c = '/' then s.readAfterSlash extraAtoms
    else s.readWord extraAtoms

/-- Reads the next token. -/
def read (extraAtoms : WordSet) (pending : Option Construct) (s : Cursor) : Reading :=
  match pending with
  | some k => k.read s
  | none =>
    match s.eatBlanks? with
    | some behind => ⟨.unstyled, none, none, behind⟩
    | none => s.readFresh extraAtoms

/-! ## Every token takes at least one character -/

theorem length_rest_readWord_le (extraAtoms : WordSet) (s : Cursor) :
    (s.readWord extraAtoms).cursor.rest.length ≤ s.rest.length :=
  length_rest_eatWhile_le _ _

theorem length_rest_readAfterSlash_le (extraAtoms : WordSet) (s : Cursor) :
    (s.readAfterSlash extraAtoms).cursor.rest.length ≤ s.rest.length := by
  unfold readAfterSlash
  split
  · rename_i inside h
    obtain ⟨-, rfl⟩ := eat?_eq_some h
    rw [Construct.cursor_read]
    have := Construct.length_rest_scan_le .blockComment (s.forward 1)
    simp at this
    omega
  · split
    · simp
    · exact length_rest_readWord_le extraAtoms s

theorem length_rest_readFresh_lt (extraAtoms : WordSet) {s : Cursor} (h : s.rest ≠ []) :
    (s.readFresh extraAtoms).cursor.rest.length < s.rest.length := by
  unfold readFresh
  split
  · rename_i hnone
    simp [advance?, peek?, h] at hnone
  · rename_i c behind hsome
    obtain ⟨hrest, -⟩ := advance?_eq_some hsome
    have hlt : behind.rest.length < s.rest.length := by simp [hrest]
    refine Nat.lt_of_le_of_lt ?_ hlt
    split
    · rw [Construct.cursor_read]
      exact Construct.length_rest_scan_le _ _
    · split
      · exact Nat.le_refl _
      · split
        · exact length_rest_eatWhile_le _ _
        · split
          · exact length_rest_readAfterSlash_le _ _
          · exact length_rest_readWord_le _ _

/-- Unless the line is at its end, reading a token moves the cursor. -/
theorem length_rest_read_lt (extraAtoms : WordSet) (pending : Option Construct) {s : Cursor}
    (h : s.rest ≠ []) : (s.read extraAtoms pending).cursor.rest.length < s.rest.length := by
  unfold read
  split
  · rw [Construct.cursor_read]
    exact Construct.length_rest_scan_lt _ h
  · split
    · rename_i behind hblank
      exact length_rest_eatWhile?_lt hblank
    · exact length_rest_readFresh_lt extraAtoms h

end Cursor
end EditorMode
