import EditorMode.Column
import EditorMode.Text.Blank
import EditorMode.Text.Search

/-! # A cursor over one line

The mode never owns the text it classifies: it reads one line, without its terminator, through a
**cursor**.  The cursor divides the line into what stands before the current token, the **lexeme**
read so far of that token, and the **rest** still to be read.  Reading moves characters from the
rest to the lexeme and never back, so every movement is a `forward`.

The visual column of the token's first character is carried along: `startToken` advances it over
the finished lexeme, so that a line is measured once and not once per token.

Operations whose name ends in a question mark have no result when there is nothing for them to
read; the cursor then stays where it is. -/

namespace EditorMode

/-- A reading position in a line, inside a token. -/
structure Cursor where
  /-- The whole line. -/
  line : Text
  /-- Distance of the tab stops; at least one. -/
  tabSize : Nat
  /-- Byte offset of the current token. -/
  start : Nat
  /-- Visual column of the current token. -/
  column : Nat
  /-- What has been read of the current token. -/
  lexeme : Text
  /-- What has not been read yet. -/
  rest : Text
  deriving DecidableEq, Repr

namespace Cursor

/-- The cursor at the beginning of a line. -/
def ofLine (line : Text) (tabSize : Nat) : Cursor :=
  { line, tabSize := Column.tabSize tabSize, start := 0, column := 0, lexeme := [], rest := line }

/-- The cursor at a byte offset of a line, where a token starts.  An offset past the end means the
end; one inside a character is a fault. -/
def ofOffset (line : Text) (offset tabSize : Nat) : Except Fault Cursor :=
  let start := min offset (Text.byteLength line)
  match Text.cutAt? start line with
  | none => .error (.splitCharacter start)
  | some (before, rest) => do
    let tabSize := Column.tabSize tabSize
    let column ← Column.advance tabSize 0 before
    return { line, tabSize, start, column, lexeme := [], rest }

/-- At offset zero, a line is read from its beginning. -/
theorem ofOffset_zero (line : Text) (tabSize : Nat) :
    ofOffset line 0 tabSize = .ok (ofLine line tabSize) := by
  simp [ofOffset, ofLine, bind, Except.bind, pure, Except.pure]

/-- A cursor at an offset stands between the two parts of the line. -/
theorem ofOffset_byteLength {before rest : Text} {tabSize column : Nat}
    (h : Column.advance (Column.tabSize tabSize) 0 before = .ok column) :
    ofOffset (before ++ rest) (Text.byteLength before) tabSize =
      .ok { line := before ++ rest, tabSize := Column.tabSize tabSize,
            start := Text.byteLength before, column, lexeme := [], rest } := by
  have hmin : min (Text.byteLength before) (Text.byteLength (before ++ rest)) =
      Text.byteLength before := by
    rw [Text.byteLength_append]
    omega
  simp only [ofOffset, hmin, Text.cutAt?_byteLength, h, bind, Except.bind, pure, Except.pure]

/-- Byte offset of the reading position. -/
def pos (s : Cursor) : Nat := s.start + Text.byteLength s.lexeme

/-- Whether nothing stands before the reading position. -/
def atLineStart (s : Cursor) : Bool := s.pos == 0

/-- Whether nothing is left to read. -/
def atLineEnd (s : Cursor) : Bool := s.rest.isEmpty

/-- The next character, unread. -/
def peek? (s : Cursor) : Option Char := s.rest.head?

/-- Visual column of the line's first character that is not blank. -/
def indentation (s : Cursor) : Except Fault Nat :=
  Column.advance s.tabSize 0 (Text.leadingBlank s.line)

/-- Makes the reading position the start of a new token. -/
def startToken (s : Cursor) : Except Fault Cursor := do
  let column ← Column.advance s.tabSize s.column s.lexeme
  return { s with start := s.pos, column, lexeme := [] }

/-- Starting a token reads nothing. -/
theorem rest_startToken {s t : Cursor} (h : s.startToken = .ok t) : t.rest = s.rest := by
  obtain ⟨column, -, h⟩ := Fault.bind_eq_ok.mp h
  obtain rfl := Fault.pure_eq_ok.mp h
  rfl

/-! ## Movement -/

/-- The cursor after reading `n` characters, or all of the rest if it has fewer. -/
def forward (n : Nat) (s : Cursor) : Cursor :=
  { s with lexeme := s.lexeme ++ s.rest.take n, rest := s.rest.drop n }

@[simp] theorem rest_forward (n : Nat) (s : Cursor) : (s.forward n).rest = s.rest.drop n := rfl

@[simp] theorem lexeme_forward (n : Nat) (s : Cursor) :
    (s.forward n).lexeme = s.lexeme ++ s.rest.take n := rfl

/-- Reading moves characters from the rest to the lexeme. -/
theorem lexeme_append_rest_forward (n : Nat) (s : Cursor) :
    (s.forward n).lexeme ++ (s.forward n).rest = s.lexeme ++ s.rest := by
  simp

/-- Reads one character. -/
def advance? (s : Cursor) : Option (Char × Cursor) :=
  s.peek?.map fun c => (c, s.forward 1)

/-- Reads one character if it is `c`. -/
def eat? (c : Char) (s : Cursor) : Option Cursor :=
  if s.peek? = some c then some (s.forward 1) else none

/-- Reads the longest beginning of the rest whose characters satisfy `p`. -/
def eatWhile (p : Char → Bool) (s : Cursor) : Cursor :=
  s.forward (s.rest.takeWhile p).length

/-- Reads at least one character that satisfies `p`, and as many as there are. -/
def eatWhile? (p : Char → Bool) (s : Cursor) : Option Cursor :=
  if s.peek?.any p then some (s.eatWhile p) else none

/-- Reads white space. -/
def eatBlanks? (s : Cursor) : Option Cursor := s.eatWhile? Text.isBlank

/-- Reads all of the rest. -/
def skipToEnd (s : Cursor) : Cursor := s.forward s.rest.length

/-- Reads up to the next `c`, which is left unread. -/
def skipTo? (c : Char) (s : Cursor) : Option Cursor :=
  (Text.cutBefore? c s.rest).map fun parts => s.forward parts.1.length

/-! ## What is left after a movement -/

theorem eat?_eq_some {c : Char} {s t : Cursor} (h : s.eat? c = some t) :
    s.rest = c :: t.rest ∧ t = s.forward 1 := by
  unfold eat? peek? at h
  split at h
  · rename_i hc
    obtain ⟨others, hr⟩ := List.head?_eq_some_iff.mp hc
    obtain rfl := Option.some.inj h
    simp [hr]
  · simp at h

theorem advance?_eq_some {c : Char} {s t : Cursor} (h : s.advance? = some (c, t)) :
    s.rest = c :: t.rest ∧ t = s.forward 1 := by
  obtain ⟨d, hd, he⟩ := Option.map_eq_some_iff.mp h
  obtain ⟨others, hr⟩ := List.head?_eq_some_iff.mp hd
  obtain ⟨rfl, rfl⟩ := Prod.mk.inj he
  simp [hr]

/-- A cursor that skips to a character stops before some beginning of the rest. -/
theorem skipTo?_eq_some {c : Char} {s t : Cursor} (h : s.skipTo? c = some t) :
    ∃ skipped, s.rest = skipped ++ t.rest ∧ t = s.forward skipped.length ∧ t.rest ≠ [] := by
  obtain ⟨⟨skipped, after⟩, hcut, rfl⟩ := Option.map_eq_some_iff.mp h
  obtain ⟨hrest, hne⟩ := Text.cutBefore?_eq_some hcut
  have hafter : (s.forward skipped.length).rest = after := by
    rw [rest_forward, ← hrest, List.drop_left]
  refine ⟨skipped, ?_, rfl, ?_⟩
  · rw [hafter, hrest]
  · rwa [hafter]

/-- Reading forward adds the bytes of what is read to the position. -/
theorem pos_forward (n : Nat) (s : Cursor) :
    (s.forward n).pos = s.pos + Text.byteLength (s.rest.take n) := by
  simp [pos, forward, Nat.add_assoc]

theorem length_rest_eatWhile_le (p : Char → Bool) (s : Cursor) :
    (s.eatWhile p).rest.length ≤ s.rest.length := by
  simp [eatWhile]

@[simp] theorem rest_skipToEnd (s : Cursor) : s.skipToEnd.rest = [] := by
  simp [skipToEnd]

/-- Reading what satisfies `p` moves the cursor if there is anything of the kind. -/
theorem length_rest_eatWhile?_lt {p : Char → Bool} {s t : Cursor} (h : s.eatWhile? p = some t) :
    t.rest.length < s.rest.length := by
  unfold eatWhile? peek? at h
  split at h
  · rename_i hp
    obtain rfl := Option.some.inj h
    cases hr : s.rest with
    | nil => simp [hr] at hp
    | cons c others =>
      have hc : p c := by simpa [hr] using hp
      simp only [eatWhile, rest_forward, hr, List.takeWhile_cons_of_pos hc, List.length_cons,
        List.drop_succ_cons, List.length_drop]
      omega
  · simp at h

end Cursor
end EditorMode
