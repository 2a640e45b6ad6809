import EditorMode.Construct

/-! # A cursor of byte offsets

A `Cursor` keeps the lexeme and the rest of its line apart.  A host need not copy text for this: it
keeps the line and two **byte offsets** in it, the start of the current token and the reading
position, and cuts the line at them whenever it looks at the text.  Reading then is adding the bytes
of what has been read to an offset, and each operation here does just that: it searches, loops and
adds, and a cut that would split a character is a fault. -/

namespace EditorMode

/-- A reading position in a line, inside a token, by two offsets. -/
structure OffsetCursor where
  /-- The whole line. -/
  line : Text
  /-- Byte offset of the reading position. -/
  pos : Nat
  /-- Byte offset of the current token. -/
  start : Nat
  /-- Visual column of the current token. -/
  startColumn : Nat
  /-- Distance of the tab stops; at least one. -/
  tabSize : Nat
  deriving DecidableEq, Repr

/-- The offsets of a cursor, without the parts into which they divide its line. -/
def Cursor.offsets (s : Cursor) : OffsetCursor := ⟨s.line, s.pos, s.start, s.column, s.tabSize⟩

namespace OffsetCursor

/-! ## Looking at the line -/

/-- The parts of a text before and behind an offset. -/
def cut (offset : Nat) (t : Text) : Except Fault (Text × Text) :=
  match Text.cutAt? offset t with
  | some parts => .ok parts
  | none => .error (.splitCharacter offset)

/-- The cursor at a byte offset of a line, where a token starts.  An offset past the end means the
end. -/
def ofOffset (line : Text) (offset tabSize : Nat) : Except Fault OffsetCursor := do
  let pos := min offset (Text.byteLength line)
  let (before, _) ← cut pos line
  let startColumn ← Column.advance (Column.tabSize tabSize) 0 before
  return { line, pos, start := pos, startColumn, tabSize := Column.tabSize tabSize }

/-- What is left to read. -/
def rest (s : OffsetCursor) : Except Fault Text := do
  let (_, rest) ← cut s.pos s.line
  return rest

/-- The text from the start of the token up to the reading position. -/
def lexeme (s : OffsetCursor) : Except Fault Text :=
  match Text.slice? s.start s.pos s.line with
  | some lexeme => .ok lexeme
  | none => .error (.splitCharacter s.pos)

/-- The cursor of which these are the offsets. -/
def parts (s : OffsetCursor) : Except Fault Cursor := do
  let lexeme ← s.lexeme
  let rest ← s.rest
  return { line := s.line, tabSize := s.tabSize, start := s.start, column := s.startColumn,
           lexeme, rest }

/-- Whether the reading position is at the start of the line. -/
def atLineStart (s : OffsetCursor) : Bool := s.pos == 0

/-- Whether the reading position is at the end of the line. -/
def atLineEnd (s : OffsetCursor) : Bool := Text.byteLength s.line ≤ s.pos

/-- The next character, unread. -/
def peek? (s : OffsetCursor) : Except Fault (Option Char) := do
  let rest ← s.rest
  return rest.head?

/-- Visual column of the line's first character that is not blank: that of the bytes which cutting
off the leading blanks removes. -/
def indentation (s : OffsetCursor) : Except Fault Nat := do
  let blanks := Text.byteLength s.line - Text.byteLength (Text.trimStart s.line)
  let (before, _) ← cut blanks s.line
  Column.count before s.tabSize

/-! ## Moving the offsets -/

/-- The cursor with its reading position so many bytes further on. -/
def moveBy (bytes : Nat) (s : OffsetCursor) : OffsetCursor := { s with pos := s.pos + bytes }

@[simp] theorem line_moveBy (bytes : Nat) (s : OffsetCursor) : (s.moveBy bytes).line = s.line := rfl

@[simp] theorem pos_moveBy (bytes : Nat) (s : OffsetCursor) :
    (s.moveBy bytes).pos = s.pos + bytes := rfl

/-- Makes the reading position the start of a new token. -/
def startToken (s : OffsetCursor) : Except Fault OffsetCursor := do
  let lexeme ← s.lexeme
  let startColumn ← Column.advance s.tabSize s.startColumn lexeme
  return { s with start := s.pos, startColumn }

/-- Reads one character. -/
def advance? (s : OffsetCursor) : Except Fault (Option (Char × OffsetCursor)) := do
  let next ← s.peek?
  return next.map fun c => (c, s.moveBy c.utf8Size)

/-- Reads one character if it is `c`. -/
def eat? (c : Char) (s : OffsetCursor) : Except Fault (Option OffsetCursor) := do
  let next ← s.peek?
  return if next = some c then some (s.moveBy c.utf8Size) else none

/-- Reads up to the next `c`, which is left unread. -/
def skipTo? (c : Char) (s : OffsetCursor) : Except Fault (Option OffsetCursor) := do
  let rest ← s.rest
  return (Text.offsetOf? c rest).map fun offset => s.moveBy offset

/-- Reads all of the rest. -/
def skipToEnd (s : OffsetCursor) : OffsetCursor := { s with pos := Text.byteLength s.line }

/-! ## Loops

Each round of a loop moves the reading position towards the end of the line. -/

/-- A reading position where the line has been cut is that of the bytes before it. -/
theorem byteLength_line_of_rest {s : OffsetCursor} {t : Text} (h : s.rest = .ok t) :
    Text.byteLength s.line = s.pos + Text.byteLength t := by
  obtain ⟨⟨before, rest⟩, hcut, h⟩ := Fault.bind_eq_ok.mp h
  obtain rfl := Fault.pure_eq_ok.mp h
  unfold cut at hcut
  split at hcut
  · rename_i parts hparts
    obtain rfl := Except.ok.inj hcut
    obtain ⟨hline, hlength⟩ := Text.cutAt?_eq_some hparts
    rw [← hline, Text.byteLength_append, hlength]
  · cases hcut

theorem byteLength_line_of_peek? {s : OffsetCursor} {c : Char} (h : s.peek? = .ok (some c)) :
    s.pos + c.utf8Size ≤ Text.byteLength s.line := by
  obtain ⟨rest, hrest, h⟩ := Fault.bind_eq_ok.mp h
  obtain ⟨t, rfl⟩ := List.head?_eq_some_iff.mp (Fault.pure_eq_ok.mp h)
  rw [byteLength_line_of_rest hrest, Text.byteLength_cons]
  omega

/-- Behind a character that has been read less of the line is left. -/
theorem left_lt_of_peek? {s : OffsetCursor} {c : Char} (h : s.peek? = .ok (some c)) :
    Text.byteLength s.line - (s.pos + c.utf8Size) < Text.byteLength s.line - s.pos := by
  have hle := byteLength_line_of_peek? h
  have hpos := c.utf8Size_pos
  omega

theorem peek?_of_advance? {s t : OffsetCursor} {c : Char} (h : s.advance? = .ok (some (c, t))) :
    s.peek? = .ok (some c) ∧ t = s.moveBy c.utf8Size := by
  obtain ⟨next, hnext, h⟩ := Fault.bind_eq_ok.mp h
  obtain ⟨d, rfl, hd⟩ := Option.map_eq_some_iff.mp (Fault.pure_eq_ok.mp h)
  obtain ⟨rfl, rfl⟩ := Prod.mk.inj hd
  exact ⟨hnext, rfl⟩

/-- A character that has been skipped to stands before the end of the line. -/
theorem lt_of_skipTo? {c : Char} {s t : OffsetCursor} (h : s.skipTo? c = .ok (some t)) :
    t.line = s.line ∧ s.pos ≤ t.pos ∧ t.pos < Text.byteLength t.line := by
  obtain ⟨rest, hrest, h⟩ := Fault.bind_eq_ok.mp h
  obtain ⟨offset, hoffset, rfl⟩ := Option.map_eq_some_iff.mp (Fault.pure_eq_ok.mp h)
  have hlt := Text.offsetOf?_lt hoffset
  have hline := byteLength_line_of_rest hrest
  refine ⟨rfl, Nat.le_add_right s.pos offset, ?_⟩
  rw [pos_moveBy, line_moveBy]
  omega

/-- Before the end of the line there is a character to read. -/
theorem advance?_ne_none {s : OffsetCursor} (h : s.pos < Text.byteLength s.line) :
    s.advance? ≠ .ok none := by
  intro hnone
  obtain ⟨next, hnext, hmap⟩ := Fault.bind_eq_ok.mp hnone
  obtain rfl := Option.map_eq_none_iff.mp (Fault.pure_eq_ok.mp hmap)
  obtain ⟨rest, hrest, hhead⟩ := Fault.bind_eq_ok.mp hnext
  obtain rfl := List.head?_eq_none_iff.mp (Fault.pure_eq_ok.mp hhead)
  have hline := byteLength_line_of_rest hrest
  rw [Text.byteLength_nil] at hline
  omega

/-- Reads on as long as the next character satisfies `p`. -/
def eatWhile (p : Char → Bool) (s : OffsetCursor) : Except Fault OffsetCursor :=
  match _next : s.peek? with
  | .error fault => .error fault
  | .ok none => .ok s
  | .ok (some c) => if p c then eatWhile p (s.moveBy c.utf8Size) else .ok s
termination_by Text.byteLength s.line - s.pos
decreasing_by exact left_lt_of_peek? _next

/-- Reads at least one character that satisfies `p`, and as many as there are. -/
def eatWhile? (p : Char → Bool) (s : OffsetCursor) : Except Fault (Option OffsetCursor) := do
  let t ← s.eatWhile p
  return if s.pos < t.pos then some t else none

/-- Reads white space. -/
def eatBlanks? (s : OffsetCursor) : Except Fault (Option OffsetCursor) := s.eatWhile? Text.isBlank

/-- Reads a string's content up to and including its closing quote, or to the end of the line.
`escaped` tells whether the next character is escaped. -/
def scanString (quote : Char) (escaped : Bool) (s : OffsetCursor) :
    Except Fault (Construct.Outcome × OffsetCursor) :=
  match _next : s.advance? with
  | .error fault => .error fault
  | .ok none => .ok (.unfinished, s)
  | .ok (some (c, behind)) =>
    if c = quote ∧ ¬ escaped then .ok (.closed, behind)
    else scanString quote (!escaped && c == '\\') behind
termination_by Text.byteLength s.line - s.pos
decreasing_by
  obtain ⟨hpeek, hbehind⟩ := peek?_of_advance? _next
  rw [hbehind]
  exact left_lt_of_peek? hpeek

/-- Reads a comment's content up to and including its closing delimiter, or to the end of the line:
on to the next star, over it, and over a slash if one follows. -/
def scanBlockComment (s : OffsetCursor) : Except Fault (Construct.Outcome × OffsetCursor) :=
  match _skipped : s.skipTo? '*' with
  | .error fault => .error fault
  | .ok none => .ok (.unfinished, s.skipToEnd)
  | .ok (some star) =>
    match _advanced : star.advance? with
    | .error fault => .error fault
    | .ok advanced =>
      let behind := (advanced.map (·.2)).getD star
      match behind.eat? '/' with
      | .error fault => .error fault
      | .ok (some closed) => .ok (.closed, closed)
      | .ok none => scanBlockComment behind
termination_by Text.byteLength s.line - s.pos
decreasing_by
  obtain ⟨hline, hle, hlt⟩ := lt_of_skipTo? _skipped
  cases advanced with
  | none => exact absurd _advanced (advance?_ne_none hlt)
  | some read =>
    obtain ⟨hpeek, hbehind⟩ := peek?_of_advance? _advanced
    have hleft := left_lt_of_peek? hpeek
    rw [hline] at hleft
    simp only [Option.map_some, Option.getD_some, hbehind, line_moveBy, pos_moveBy, hline]
    omega

end OffsetCursor
end EditorMode
